import Prodinamik.Machine.Graph
import Prodinamik.Runs.Crash
import Prodinamik.Runs.History

namespace Prodinamik.Runs

open Machine Lib.Run Relation

/-- Once an irreversible transition is taken its source is not entered again. -/
def NeverBack (sm : StateMachine) (s : Trail) : Prop :=
  s.taken.Pairwise fun e e' => sm.transitionType e.1 e.2 = .irreversible → e'.2 ≠ e.1

instance (sm : StateMachine) : DecidablePred (NeverBack sm) :=
  fun s => inferInstanceAs (Decidable (s.taken.Pairwise _))

/-- The call does not take an irreversible transition that is part of a cycle. -/
def OneWay (sm : StateMachine) (slug : String) (s : Trail) (c : UpdateCall) : Prop :=
  ∀ a, currentState s.disk slug = some a → sm.transitionType a c.toState = .irreversible →
    ¬ sm.config.Path c.toState a

variable {digest : WalEntry → String} {d : Disk}

theorem currentState_of_holdsMeta {slug state : String} {version : Nat}
    (h : HoldsMeta True (d.active slug) state version) : currentState d slug = some state := by
  obtain ⟨m, hdir, rfl, hversion, ⟨n, hn⟩, hplain⟩ := h
  obtain ⟨hstate, hactive⟩ := hplain trivial
  obtain ⟨m', hread, -, hstate', -⟩ := RunMeta.read_write hversion hn
    (by rw [hactive]; decide) hstate slug
  rw [currentState, hdir, Option.map_some, Disk.readMeta]
  simp only [hread, hstate']

theorem updateState_ne_nil {slug toState : String} {profile : Option ProductProfile}
    {overrides : List Override} {now walTime : DateTime} {writes : List Write} {m : RunMeta}
    (h : updateState digest d slug toState profile overrides now walTime = .ok (writes, m)) :
    writes ≠ [] := by
  rw [updateState] at h
  split at h
  · cases h
  · split at h
    · cases h
    · cases h
    · simp only at h
      split at h
      · cases h
      · cases h
        exact List.cons_ne_nil _ _

/-- An update leaves the metadata of the state it goes to. -/
theorem updateState_holdsMeta {slug state toState : String} {version : Nat}
    (h : HoldsMeta True (d.active slug) state version) {profile : Option ProductProfile}
    {overrides : List Override} {now walTime : DateTime} {writes : List Write} {m : RunMeta}
    (hok : updateState digest d slug toState profile overrides now walTime = .ok (writes, m))
    (hplain : Plain toState) :
    HoldsMeta True ((d.performAll writes).active slug) toState (version + 1) := by
  have hdirs : DirsAgree True d slug ⟨.active state version, 0⟩ := by
    refine ⟨?_, fun hno => absurd rfl (hno state version), fun _ _ heq => (nomatch heq),
      fun heq => (nomatch heq)⟩
    intro state' version' heq
    cases heq
    exact h
  have hwrites : (Op.update slug toState profile overrides now walTime).writes digest d = writes := by
    rw [Op.writes, hok]
    rfl
  have hor : (Op.update slug toState profile overrides now walTime).writes digest d = [] ∨ _ :=
    updateState_taken hdirs now walTime fun _ => hplain
  obtain hnil | ⟨entry, data, htaken⟩ := hor
  · rw [hwrites] at hnil
    exact absurd hnil (updateState_ne_nil hok)
  · rw [hwrites] at htaken
    exact (htaken.dirs hdirs).active _ _ rfl

theorem createRun_cases {title : String} {profile : ProductProfile} {slug : String}
    {now walTime : DateTime} {writes : List Write} {m : RunMeta} {sm : StateMachine}
    (hsm : profile.stateMachine = some sm)
    (hok : createRun digest d title profile slug now walTime = .ok (writes, m)) :
    ∃ initial ∈ sm.config.initialStates, m.state = initial.name ∧ (Plain initial.name →
      HoldsMeta True ((d.performAll writes).active slug) initial.name 0) := by
  rw [createRun, hsm] at hok
  simp only at hok
  split at hok
  · cases hok
  · cases hinitial : sm.config.initialStates with
    | nil => rw [hinitial] at hok; cases hok
    | cons initial rest =>
        rw [hinitial] at hok
        obtain ⟨hwrites, hm⟩ := Prod.mk.inj (Except.ok.inj hok)
        refine ⟨initial, List.mem_cons_self, by rw [← hm], fun hplain => ⟨m, ?_, by rw [← hm],
          by rw [← hm]; rfl, ⟨0, by rw [← hm]; rfl⟩, fun _ => ⟨hplain, by rw [← hm]⟩⟩⟩
        rw [← hwrites, ← hm]
        simp [Disk.performAll, Disk.perform, appendWal, updateSnapshot]

/-- The states of a machine are read back as they were written. -/
def PlainStates (sm : StateMachine) : Prop := ∀ e ∈ sm.config.states, Plain e.1

instance (sm : StateMachine) : Decidable (PlainStates sm) :=
  inferInstanceAs (Decidable (∀ e ∈ sm.config.states, Plain e.1))

theorem PlainStates.plain {sm : StateMachine} (h : PlainStates sm) {name : String}
    (hname : (sm.config.state name).isSome = true) : Plain name := by
  obtain ⟨e, he, rfl⟩ := List.mem_map.mp (StateMachineConfig.mem_keys_of_state hname)
  exact h e he

/-- Where a run is and that it has got there by the transitions it has taken. -/
structure OnPath (sm : StateMachine) (slug : String) (s : Trail) : Prop where
  here : ∃ state version, HoldsMeta True (s.disk.active slug) state version ∧
    ∀ e ∈ s.taken, sm.config.Path e.2 state
  oneWay : ∀ e ∈ s.taken, sm.transitionType e.1 e.2 = .irreversible → ¬ sm.config.Path e.2 e.1
  neverBack : NeverBack sm s

theorem onPath_update {sm : StateMachine} {profile : ProductProfile} {slug : String}
    (hsm : profile.stateMachine = some sm) (hplain : PlainStates sm) {s : Trail} {c : UpdateCall}
    (h : OnPath sm slug s) (honeWay : OneWay sm slug s c) :
    OnPath sm slug (s.update digest profile slug c) := by
  obtain ⟨e, he⟩ | ⟨writes, m, fromState, rt, rt', hok, hcurrent, -, hcan⟩ :=
    updateState_cases digest s.disk slug c.toState hsm c.overrides c.now c.walTime
  · rw [Trail.update, he]
    exact h
  · obtain ⟨state, version, hholds, hpath⟩ := h.here
    have hstate : fromState = state :=
      Option.some.inj (hcurrent.symm.trans (currentState_of_holdsMeta hholds))
    subst hstate
    obtain ⟨t, ht, hfrom, hto⟩ := (StateMachine.canTransition_step hcan).1
    have hedge : sm.config.Edge fromState c.toState := ⟨t, ht, hfrom, hto⟩
    have hdeclared : (sm.config.state c.toState).isSome = true := hto ▸ (sm.declared ht).1
    rw [Trail.update, hok, hcurrent]
    refine ⟨⟨c.toState, version + 1, updateState_holdsMeta hholds hok (hplain.plain hdeclared),
      ?_⟩, ?_, ?_⟩
    · intro e he
      rw [List.mem_append, List.mem_singleton] at he
      obtain he | rfl := he
      · exact (hpath e he).tail hedge
      · exact .refl
    · intro e he
      rw [List.mem_append, List.mem_singleton] at he
      obtain he | rfl := he
      · exact h.oneWay e he
      · exact honeWay fromState hcurrent
    · refine List.pairwise_append.mpr ⟨h.neverBack, List.pairwise_singleton _ _, ?_⟩
      intro e he e' he' hirreversible hback
      rw [List.mem_singleton.mp he'] at hback
      exact h.oneWay e he hirreversible (hback ▸ (hpath e he).tail hedge)

/-- A run that takes no irreversible transition of a cycle does not go back
behind one. -/
theorem never_back {sm : StateMachine} {title : String} {profile : ProductProfile} {slug : String}
    {now walTime : DateTime} {writes : List Write} {m : RunMeta}
    (hsm : profile.stateMachine = some sm) (hplain : PlainStates sm)
    (hcreate : createRun digest d title profile slug now walTime = .ok (writes, m))
    {calls : List UpdateCall} (honeWay : Steps (Trail.update digest profile slug) (OneWay sm slug)
      ⟨d.performAll writes, []⟩ calls) :
    Always (Trail.update digest profile slug) (NeverBack sm) ⟨d.performAll writes, []⟩ calls := by
  obtain ⟨initial, hinitial, -, hholds⟩ := createRun_cases hsm hcreate
  refine Along.imp (fun _ h => h.neverBack) (fun _ _ _ => trivial)
    (along_of_invariant (fun s c h hc => onPath_update hsm hplain h hc) ?_ honeWay)
  exact ⟨⟨initial.name, 0, hholds (hplain.plain (sm.initial_declared hinitial)),
    fun _ he => absurd he List.not_mem_nil⟩, fun _ he => absurd he List.not_mem_nil,
      List.Pairwise.nil⟩

/-- A release may be taken back although it is irreversible. -/
def releasing : StateMachine where
  config :=
    { states :=
        [("staging", .once "staging" .initial),
          ("released", .once "released" .intermediate),
          ("archived", .once "archived" .terminal)]
      transitions :=
        [{ fromState := "staging", toState := "released", transitionType := .irreversible },
          { fromState := "released", toState := "staging" },
          { fromState := "released", toState := "archived", transitionType := .irreversible }]
      nodup := by decide }
  accepted := by decide

def releases : ProductProfile := ⟨"releases", some releasing⟩

def toState (name : String) : UpdateCall :=
  { toState := name, now := atMinute 2, walTime := atMinute 3 }

theorem not_never_back : ¬ ∀ (digest : WalEntry → String) (d : Disk) (sm : StateMachine)
    (title : String) (profile : ProductProfile) (slug : String) (now walTime : DateTime)
    (writes : List Write) (m : RunMeta) (calls : List UpdateCall),
    profile.stateMachine = some sm →
    createRun digest d title profile slug now walTime = .ok (writes, m) →
    Always (Trail.update digest profile slug) (NeverBack sm) ⟨d.performAll writes, []⟩ calls := by
  intro h
  have hback := (h (fun _ => "") {} releasing "A" releases "a" (atMinute 0) (atMinute 1) _ _
    [toState "released", toState "staging"] rfl rfl).2.2.2.2
  revert hback
  decide +kernel

/-- Printing is irreversible and the end of a run. -/
def printing : StateMachine where
  config :=
    { states :=
        [("manuscript", .once "manuscript" .initial),
          ("printed", .once "printed" .terminal)]
      transitions :=
        [{ fromState := "manuscript", toState := "printed", transitionType := .irreversible }]
      nodup := by decide }
  accepted := by decide

def prints : ProductProfile := ⟨"prints", some printing⟩

theorem printing_path {b : String} (h : printing.config.Path "printed" b) : b = "printed" := by
  have hnone : ∀ t ∈ printing.config.transitions, t.fromState ≠ "printed" := by decide
  induction h with
  | refl => rfl
  | tail _ hedge ih =>
      obtain ⟨t, ht, hfrom, -⟩ := hedge
      exact absurd (hfrom.trans ih) (hnone t ht)

theorem never_back_printed : Always (Trail.update (fun _ => "") prints "a")
    (NeverBack printing) ⟨runOps (fun _ => "") {} [.create "A" prints "a" a_named
      (atMinute 0) (atMinute 1)], []⟩ [toState "printed"] := by
  refine never_back rfl (by decide) rfl ⟨trivial, ?_, trivial⟩
  intro a ha _ hpath
  rw [printing_path hpath] at ha
  revert ha
  decide +kernel

end Prodinamik.Runs
