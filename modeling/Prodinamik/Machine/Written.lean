import Prodinamik.Lib.Grouping
import Prodinamik.Machine.Parser

namespace Prodinamik.Machine

def StateType.word : StateType → String
  | initial => "initial"
  | intermediate => "intermediate"
  | terminal => "terminal"
  | error => "error"
  | pause => "pause"

def TransitionType.word : TransitionType → String
  | reversible => "REVERSIBLE"
  | compensable => "COMPENSABLE"
  | irreversible => "IRREVERSIBLE"

namespace Yaml

def ofTexts (texts : List String) : Yaml := .list (texts.map .str)

def ofAsk (a : AskDirective) : Yaml := .dict
  [("question", .str a.question), ("type", .str a.type), ("choices", ofTexts a.choices),
    ("required", .bool a.required), ("timeout", .int a.timeoutSeconds)]

def ofConditionalAsk (a : ConditionalAsk) : Yaml := .dict
  [("condition", .str a.condition), ("question", .str a.question), ("type", .str a.type),
    ("choices", ofTexts a.choices), ("on_timeout", .str a.onTimeout)]

def ofHitl (h : HITLConfig) : Yaml := .dict
  [("ask_user", .list (h.askUser.map ofAsk)), ("ask_if", .list (h.askIf.map ofConditionalAsk)),
    ("on_timeout", .str h.onTimeout),
    ("resume_transitions", .dict (h.resumeTransitions.map fun e => (e.1, .str e.2)))]

def ofState (s : StateDefinition) : Yaml := .dict
  [("type", .str s.stateType.word), ("max_reentries", ofInt s.maxReentries),
    ("timeout", ofInt s.timeoutSeconds),
    ("temporal", .dict [("on_timeout", ofText s.temporalOnTimeout)]),
    ("hitl", (s.hitl.map ofHitl).getD .null)]

def arrow (t : TransitionDefinition) : String := t.fromState ++ " -> " ++ t.toState

def ofTransition (t : TransitionDefinition) : Yaml := .dict
  [("type", .str t.transitionType.word), ("condition", ofText t.condition),
    ("requires_human", .bool t.requiresHuman)]

def ofConfig (c : StateMachineConfig) : Yaml := .dict
  [("states", .dict (c.states.map fun e => (e.1, ofState e.2))),
    ("transitions", .dict (c.transitions.map fun t => (arrow t, ofTransition t))),
    ("temporal_constraints", ofTexts (c.ltlRules.map LTLRule.expression))]

end Yaml

section Written

variable {μ : Type → Type} [Monad μ] [LawfulMonad μ] {α β : Type}

theorem mapM_eq_pure {l : List α} {f : α → μ β} {g : α → β} (h : ∀ a ∈ l, f a = pure (g a)) :
    l.mapM f = pure (l.map g) := by
  induction l with
  | nil => rfl
  | cons a l ih =>
      obtain ⟨ha, hl⟩ := List.forall_mem_cons.mp h
      rw [List.mapM_cons, ha, ih hl, pure_bind, pure_bind, List.map_cons]

end Written

namespace Yaml

theorem int?_ofInt (i : Option Int) : (ofInt i).int? = some i := by cases i <;> rfl

theorem text?_ofText (s : Option String) : (ofText s).text? = some s := by cases s <;> rfl

theorem texts?_ofTexts (texts : List String) : (ofTexts texts).texts? = some texts := by
  have hsome : texts.mapM (str? ∘ str) = some (texts.map id) := mapM_eq_pure fun _ _ => rfl
  rw [ofTexts, texts?, List.mapM_map, hsome, List.map_id]

end Yaml

namespace StateMachineParser

open Yaml Lib.Text

/-- A question as it is parsed. -/
def rawAsk (a : AskDirective) : RawAsk :=
  ⟨.str a.question, .str a.type, ofTexts a.choices, .bool a.required, .int a.timeoutSeconds⟩

def rawConditional (a : ConditionalAsk) : RawConditionalAsk :=
  ⟨.str a.condition, .str a.question, .str a.type, ofTexts a.choices, .str a.onTimeout⟩

def rawHitl (h : HITLConfig) : RawHITL where
  pause := .bool false
  askUser := h.askUser.map rawAsk
  askIf := h.askIf.map rawConditional
  onTimeout := .str h.onTimeout
  resumeTransitions := .dict (h.resumeTransitions.map fun e => (e.1, .str e.2))

def rawState (name : String) (s : StateDefinition) : RawState where
  name := name
  stateType := s.stateType
  maxReentries := ofInt s.maxReentries
  timeoutSeconds := ofInt s.timeoutSeconds
  entryHooks := .list []
  exitHooks := .list []
  validators := .list []
  temporalMaxDuration := .null
  temporalOnTimeout := ofText s.temporalOnTimeout
  reminders := .list []
  requiresManual := .bool false
  hitl := s.hitl.map rawHitl

def rawTransition (t : TransitionDefinition) : RawTransition where
  fromState := t.fromState
  toState := t.toState
  transitionType := some t.transitionType
  condition := ofText t.condition
  action := .null
  requiresHuman := .bool t.requiresHuman

theorem parseAsk_ofAsk (a : AskDirective) : parseAsk (ofAsk a) = .ok (some (rawAsk a)) := rfl

theorem parseConditionalAsk_ofConditionalAsk (a : ConditionalAsk) :
    parseConditionalAsk (ofConditionalAsk a) = .ok (some (rawConditional a)) := rfl

theorem parseHitl_ofHitl (h : HITLConfig) : parseHitl (ofHitl h) = .ok (some (rawHitl h)) := by
  have hask : (h.askUser.map ofAsk).mapM parseAsk = .ok (h.askUser.map fun a => some (rawAsk a)) := by
    rw [List.mapM_map]
    exact mapM_eq_pure fun a _ => parseAsk_ofAsk a
  have hif : (h.askIf.map ofConditionalAsk).mapM parseConditionalAsk =
      .ok (h.askIf.map fun a => some (rawConditional a)) := by
    rw [List.mapM_map]
    exact mapM_eq_pure fun a _ => parseConditionalAsk_ofConditionalAsk a
  have hsome : ∀ {α β : Type} (f : α → β) (l : List α),
      (l.map fun a => some (f a)).filterMap id = l.map f := by
    intro α β f l
    rw [List.filterMap_map, Function.id_comp]
    exact congrFun List.filterMap_eq_map l
  have hparse : parseHitl (ofHitl h) = ((h.askUser.map ofAsk).mapM parseAsk).bind fun askUser =>
      ((h.askIf.map ofConditionalAsk).mapM parseConditionalAsk).bind fun askIf =>
        .ok (some ⟨.bool false, askUser.filterMap id, askIf.filterMap id, .str h.onTimeout,
          .dict (h.resumeTransitions.map fun e => (e.1, .str e.2))⟩) := rfl
  rw [hparse, hask, hif]
  dsimp only [Except.bind]
  rw [hsome, hsome, rawHitl]

theorem directive_rawAsk (a : AskDirective) : RawHITL.directive (rawAsk a) = some a := by
  have hdirective : RawHITL.directive (rawAsk a) = (ofTexts a.choices).texts?.bind fun choices =>
      some ⟨a.question, a.type, choices, a.required, a.timeoutSeconds⟩ := rfl
  rw [hdirective, texts?_ofTexts]
  rfl

theorem conditional_rawConditional (a : ConditionalAsk) :
    RawHITL.conditional (rawConditional a) = some a := by
  have hconditional : RawHITL.conditional (rawConditional a) =
      (ofTexts a.choices).texts?.bind fun choices =>
        some ⟨a.condition, a.question, a.type, choices, a.onTimeout⟩ := rfl
  rw [hconditional, texts?_ofTexts]
  rfl

theorem config_rawHitl (h : HITLConfig) : (rawHitl h).config = some h := by
  have hask : (h.askUser.map rawAsk).mapM RawHITL.directive = some (h.askUser.map id) := by
    rw [List.mapM_map]
    exact mapM_eq_pure fun a _ => directive_rawAsk a
  have hif : (h.askIf.map rawConditional).mapM RawHITL.conditional = some (h.askIf.map id) := by
    rw [List.mapM_map]
    exact mapM_eq_pure fun a _ => conditional_rawConditional a
  have hresume : (Yaml.dict (h.resumeTransitions.map fun e => (e.1, .str e.2))).textDict? =
      some (h.resumeTransitions.map id) := by
    rw [textDict?, List.mapM_map]
    exact mapM_eq_pure fun e _ => rfl
  rw [RawHITL.config, rawHitl, hask, hif, hresume, List.map_id, List.map_id, List.map_id]
  rfl

theorem postInit_rawState (name : String) (s : StateDefinition) :
    (rawState name s).postInit = .ok () := by
  rw [RawState.postInit, rawState]
  cases hreentries : s.maxReentries with
  | none => cases s.stateType <;> rfl
  | some k =>
      cases htype : s.stateType with
      | initial =>
          have hk : k ≤ 1 := s.initial_reentries htype k hreentries
          simp [ofInt, isNull, atMostOne, hk]
          rfl
      | terminal =>
          have hk : k = 0 := by simpa [hreentries] using s.terminal_reentries htype
          rw [hk]
          rfl
      | intermediate => rfl
      | error => rfl
      | pause => rfl

theorem parseState_ofState (text : Yaml → String) (name : String) (s : StateDefinition) :
    parseState text name (ofState s) = .ok (name, rawState name s) := by
  have htype : mapGet stateTypeMap (.str s.stateType.word) = .ok (some s.stateType) := by
    cases s.stateType <;> rfl
  have hhitl : parseHitl ((s.hitl.map ofHitl).getD .null) = .ok (s.hitl.map rawHitl) := by
    cases s.hitl with
    | none => rfl
    | some h => exact parseHitl_ofHitl h
  have hget : (ofState s).get "type" (.str "intermediate") = .ok (.str s.stateType.word) := rfl
  have hbind : ∀ {α β : Type} (a : α) (f : α → Except Raised β), (Except.ok a >>= f) = f a :=
    fun _ _ => rfl
  rw [parseState, hget, hbind, htype, hbind]
  change (parseHitl ((s.hitl.map ofHitl).getD .null) >>= fun hitl =>
    ({ rawState name s with hitl := hitl } : RawState).postInit >>= fun _ =>
      pure (name, ({ rawState name s with hitl := hitl } : RawState))) = _
  rw [hhitl, hbind]
  change ((rawState name s).postInit >>= fun _ => pure (name, rawState name s)) = _
  rw [postInit_rawState, hbind]
  rfl

theorem definition_rawState {name : String} {s : StateDefinition} (h : s.name = name) :
    (rawState name s).definition = some s := by
  have hhitl : RawHITL.configs (s.hitl.map rawHitl) = some s.hitl := by
    cases s.hitl with
    | none => rfl
    | some h => exact congrArg (Option.map some) (config_rawHitl h)
  rw [RawState.definition, rawState]
  dsimp only
  rw [int?_ofInt, int?_ofInt, text?_ofText, hhitl]
  change (if _ : _ then _ else _) = _
  rw [dif_pos ⟨s.terminal_reentries, s.initial_reentries⟩, ← h]

/-- The states of a transition have no blank at their ends and nothing of an arrow. -/
def ArrowFree (name : String) : Prop := strip name.toList = name.toList ∧ '>' ∉ name.toList

theorem splitArrow_arrow {t : TransitionDefinition} (hfrom : ArrowFree t.fromState)
    (hto : ArrowFree t.toState) : splitArrow (arrow t) = .ok (t.fromState, t.toState) := by
  have hlist : (arrow t).toList = t.fromState.toList ++ " -> ".toList ++ t.toState.toList := by
    rw [arrow, String.toList_append, String.toList_append]
  have hmem : '>' ∈ " -> ".toList := by decide
  have hcontains : contains " -> ".toList (arrow t).toList = true := by
    rw [contains_iff, hlist]
    exact ⟨_, _, rfl⟩
  have hsplit : split " -> ".toList (arrow t).toList = [t.fromState.toList, t.toState.toList] := by
    rw [hlist, split_sep hmem hfrom.2, split_none hmem hto.2]
  rw [splitArrow, if_pos hcontains, hsplit]
  dsimp only
  rw [hfrom.1, hto.1, String.ofList_toList, String.ofList_toList]

end StateMachineParser

/-- A config that the format can express: each state is called by its key, and between two
states there is one transition at most. -/
structure StateMachineConfig.Writable (c : StateMachineConfig) : Prop where
  named : ∀ e ∈ c.states, e.2.name = e.1
  arrowFree : ∀ t ∈ c.transitions,
    StateMachineParser.ArrowFree t.fromState ∧ StateMachineParser.ArrowFree t.toState
  single : (c.transitions.map fun t => (t.fromState, t.toState)).Nodup

namespace StateMachineParser

open Yaml Lib.Text

def rawConfig (c : StateMachineConfig) : RawConfig where
  profile := .str "unknown"
  name := .str "unnamed"
  version := .str "0.0.0"
  states := c.states.map fun e => (e.1, rawState e.1 e.2)
  transitions := c.transitions.map rawTransition
  ltlRules := c.ltlRules.map fun r => { expression := .str r.expression }
  maxSteps := .int 100

variable {c : StateMachineConfig}

theorem nodup_arrows (h : c.Writable) : (c.transitions.map arrow).Nodup := by
  rw [List.nodup_map_iff_inj_on (List.Nodup.of_map _ h.single)]
  intro t ht t' ht' heq
  have hsplit := splitArrow_arrow (h.arrowFree t ht).1 (h.arrowFree t ht).2
  rw [heq, splitArrow_arrow (h.arrowFree t' ht').1 (h.arrowFree t' ht').2] at hsplit
  exact List.inj_on_of_nodup_map h.single ht ht' (Except.ok.inj hsplit).symm

theorem parseTransition_ofTransition (h : c.Writable) {t : TransitionDefinition}
    (ht : t ∈ c.transitions) :
    parseTransition (.dict (c.transitions.map fun t => (arrow t, ofTransition t))) (.str (arrow t)) =
      .ok (rawTransition t) := by
  have hnodup : ((c.transitions.map fun t => (arrow t, ofTransition t)).map Prod.fst).Nodup := by
    rw [List.map_map]
    exact nodup_arrows h
  have hlookup : (c.transitions.map fun t => (arrow t, ofTransition t)).lookup (arrow t) =
      some (ofTransition t) :=
    (Lib.Assoc.lookup_eq_some_iff hnodup).mpr (List.mem_map.mpr ⟨t, ht, rfl⟩)
  have hbind : ∀ {α β : Type} (a : α) (f : α → Except Raised β), (Except.ok a >>= f) = f a :=
    fun _ _ => rfl
  obtain ⟨hfrom, hto⟩ := h.arrowFree t ht
  rw [parseTransition, splitArrow_arrow hfrom hto, hbind, transitionInfo, hlookup]
  obtain ⟨fromState, toState, transitionType, condition, requiresHuman⟩ := t
  cases transitionType <;> rfl

theorem parseDict_ofConfig (text : Yaml → String) (h : c.Writable) :
    parseDict text (ofConfig c) = .ok (rawConfig c) := by
  have hstates : (c.states.map fun e => (e.1, ofState e.2)).mapM
      (fun e => parseState text e.1 e.2) = .ok (c.states.map fun e => (e.1, rawState e.1 e.2)) := by
    rw [List.mapM_map]
    exact mapM_eq_pure fun e _ => parseState_ofState text e.1 e.2
  have htransitions : ((c.transitions.map fun t => (arrow t, ofTransition t)).map fun e =>
      Yaml.str e.1).mapM
      (parseTransition (.dict (c.transitions.map fun t => (arrow t, ofTransition t)))) =
      .ok (c.transitions.map rawTransition) := by
    rw [List.map_map, List.mapM_map]
    exact mapM_eq_pure fun t ht => parseTransition_ofTransition h ht
  have hrules : ((c.ltlRules.map LTLRule.expression).map Yaml.str).mapM parseRule =
      .ok (c.ltlRules.map fun r => some ({ expression := .str r.expression } : RawRule)) := by
    rw [List.map_map, List.mapM_map]
    exact mapM_eq_pure fun r _ => rfl
  have hbind : ∀ {α β : Type} (a : α) (f : α → Except Raised β), (Except.ok a >>= f) = f a :=
    fun _ _ => rfl
  change ((c.states.map fun e => (e.1, ofState e.2)).mapM (fun e => parseState text e.1 e.2) >>=
    fun states => ((c.transitions.map fun t => (arrow t, ofTransition t)).map fun e =>
      Yaml.str e.1).mapM
        (parseTransition (.dict (c.transitions.map fun t => (arrow t, ofTransition t)))) >>=
    fun parsed => ((c.ltlRules.map LTLRule.expression).map Yaml.str).mapM parseRule >>=
    fun rules => .ok { rawConfig c with
      states := states, transitions := parsed, ltlRules := rules.filterMap id }) = _
  rw [hstates, hbind, htransitions, hbind, hrules, hbind, List.filterMap_map, Function.id_comp]
  exact congrArg (fun rules => Except.ok { rawConfig c with ltlRules := rules })
    (congrFun List.filterMap_eq_map c.ltlRules)

theorem config_rawConfig (h : c.Writable) : (rawConfig c).config = some c := by
  have hstates : (c.states.map fun e => (e.1, rawState e.1 e.2)).mapM
      (fun e => e.2.definition.map fun s => (e.1, s)) = some (c.states.map id) := by
    rw [List.mapM_map]
    refine mapM_eq_pure fun e he => ?_
    rw [Function.comp_apply, definition_rawState (h.named e he)]
    rfl
  have htransitions : (c.transitions.map rawTransition).mapM RawTransition.definition =
      some (c.transitions.map id) := by
    rw [List.mapM_map]
    refine mapM_eq_pure fun t _ => ?_
    have hdefinition : (rawTransition t).definition = (ofText t.condition).text?.bind fun condition =>
        some ⟨t.fromState, t.toState, t.transitionType, condition, t.requiresHuman⟩ := rfl
    rw [Function.comp_apply, hdefinition, text?_ofText]
    rfl
  have hrules : (c.ltlRules.map fun r => ({ expression := .str r.expression } : RawRule)).mapM
      RawRule.rule = some (c.ltlRules.map id) := by
    rw [List.mapM_map]
    exact mapM_eq_pure fun r _ => rfl
  rw [RawConfig.config, rawConfig, hstates, htransitions, hrules, List.map_id, List.map_id,
    List.map_id]
  exact dif_pos c.nodup

/-- A config that is written and parsed is the config it was. -/
theorem config_of_written (text : Yaml → String) (h : c.Writable) :
    (parseDict text (ofConfig c)).map RawConfig.config = .ok (some c) := by
  rw [parseDict_ofConfig text h]
  exact congrArg Except.ok (config_rawConfig h)

/-- A draft is asked about before it is published. -/
def publishing : StateMachineConfig where
  states :=
    [("draft", .once "draft" .initial),
      ("ask", { StateDefinition.once "ask" .pause with
        hitl := some { askUser := [{ question := "Publish?", type := "yes_no" }] } }),
      ("published", .once "published" .terminal)]
  transitions :=
    [{ fromState := "draft", toState := "ask" },
      { fromState := "ask", toState := "published", transitionType := .irreversible,
        condition := some "human_approved", requiresHuman := true }]
  ltlRules := [⟨"G(drift_count < 3)"⟩]
  nodup := by decide

theorem config_of_written_publishing : (parseDict (fun _ => "") (ofConfig publishing)).map
    RawConfig.config = .ok (some publishing) :=
  config_of_written _ ⟨by decide, fun t ht => by
    have hfree : ∀ t ∈ publishing.transitions,
        (strip t.fromState.toList = t.fromState.toList ∧ '>' ∉ t.fromState.toList) ∧
          strip t.toState.toList = t.toState.toList ∧ '>' ∉ t.toState.toList := by decide
    exact hfree t ht, by decide⟩

end StateMachineParser

end Prodinamik.Machine
