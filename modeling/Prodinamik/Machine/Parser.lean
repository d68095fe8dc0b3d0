import Prodinamik.Lib.Split
import Prodinamik.Machine.StateMachine

namespace Prodinamik.Machine

/-- What yaml.safe_load makes of a document, as far as keys are texts and numbers are whole. -/
inductive Yaml
  | null
  | bool (b : Bool)
  | int (i : Int)
  | str (s : String)
  | list (items : List Yaml)
  | dict (entries : List (String × Yaml))

/-- What the parser raises: a ValueError with its text or of an assignment to two
names, an AttributeError, a TypeError, or the AssertionError of a state. -/
inductive Raised
  | value (message : String)
  | unpack
  | attribute
  | type
  | assertion (message : String)
  deriving DecidableEq, Repr

namespace Yaml

def truthy : Yaml → Bool
  | null => false
  | bool b => b
  | int i => i ≠ 0
  | str s => s ≠ ""
  | list items => !items.isEmpty
  | dict entries => !entries.isEmpty

/-- y.get(key, default) -/
def get (y : Yaml) (key : String) (default : Yaml) : Except Raised Yaml :=
  match y with
  | dict entries => .ok ((entries.lookup key).getD default)
  | _ => .error .attribute

/-- y.items() -/
def items : Yaml → Except Raised (List (String × Yaml))
  | dict entries => .ok entries
  | _ => .error .attribute

/-- What a for loop goes through. -/
def iter : Yaml → Except Raised (List Yaml)
  | list items => .ok items
  | dict entries => .ok (entries.map fun e => .str e.1)
  | str s => .ok (s.toList.map fun c => .str (String.singleton c))
  | _ => .error .type

/-- y == 0 -/
def isZero : Yaml → Bool
  | int i => i = 0
  | bool b => !b
  | _ => false

/-- y <= 1 -/
def atMostOne : Yaml → Except Raised Bool
  | int i => .ok (i ≤ 1)
  | bool _ => .ok true
  | _ => .error .type

def isNull : Yaml → Bool
  | null => true
  | _ => false

end Yaml

structure RawAsk where
  question : Yaml
  type : Yaml := .str "open"
  choices : Yaml := .list []
  required : Yaml := .bool true
  timeoutSeconds : Yaml := .int 300

structure RawConditionalAsk where
  condition : Yaml
  question : Yaml
  type : Yaml
  choices : Yaml
  onTimeout : Yaml

structure RawHITL where
  pause : Yaml
  askUser : List RawAsk
  askIf : List RawConditionalAsk
  onTimeout : Yaml
  resumeTransitions : Yaml

/-- A StateDefinition as the parser leaves it: most fields are taken as they come. -/
structure RawState where
  name : String
  stateType : StateType
  maxReentries : Yaml
  timeoutSeconds : Yaml
  entryHooks : Yaml
  exitHooks : Yaml
  validators : Yaml
  temporalMaxDuration : Yaml
  temporalOnTimeout : Yaml
  reminders : Yaml
  requiresManual : Yaml
  hitl : Option RawHITL

/-- A transition of an unknown type has none. -/
structure RawTransition where
  fromState : String
  toState : String
  transitionType : Option TransitionType
  condition : Yaml
  action : Yaml
  requiresHuman : Yaml

structure RawRule where
  expression : Yaml
  withinSeconds : Yaml := .null

structure RawConfig where
  profile : Yaml
  name : Yaml
  version : Yaml
  states : List (String × RawState)
  transitions : List RawTransition
  ltlRules : List RawRule
  maxSteps : Yaml

/-- The assertions of a state. -/
def RawState.postInit (s : RawState) : Except Raised Unit := do
  if s.stateType = .terminal ∧ ¬ s.maxReentries.isNull then
    if ¬ s.maxReentries.isZero then
      throw (.assertion ("Terminal state '" ++ s.name ++ "' must have max_reentries=0"))
  if s.stateType = .initial ∧ ¬ s.maxReentries.isNull then
    if ¬ (← s.maxReentries.atMostOne) then
      throw (.assertion ("Initial state '" ++ s.name ++ "' cannot have max_reentries > 1"))

namespace StateMachineParser

open Yaml

/-- STATE_TYPE_MAP -/
def stateTypeMap : List (String × StateType) :=
  [("initial", .initial), ("intermediate", .intermediate), ("terminal", .terminal),
    ("error", .error), ("pause", .pause)]

/-- TRANSITION_TYPE_MAP -/
def transitionTypeMap : List (String × TransitionType) :=
  [("REVERSIBLE", .reversible), ("COMPENSABLE", .compensable), ("IRREVERSIBLE", .irreversible)]

/-- A map of texts is asked for a value; lists and dicts have no hash. -/
def mapGet {α : Type} (map : List (String × α)) : Yaml → Except Raised (Option α)
  | .str s => .ok (map.lookup s)
  | .list _ => .error .type
  | .dict _ => .error .type
  | _ => .ok none

/-- A question of ask_user; what is neither a text nor a dict is passed over. -/
def parseAsk : Yaml → Except Raised (Option RawAsk)
  | .str s => .ok (some { question := .str s })
  | au@(.dict _) => do
      return some
        { question := ← au.get "question" (.str "")
          type := ← au.get "type" (.str "open")
          choices := ← au.get "choices" (.list [])
          required := ← au.get "required" (.bool true)
          timeoutSeconds := ← au.get "timeout" (.int 300) }
  | _ => .ok none

def parseConditionalAsk : Yaml → Except Raised (Option RawConditionalAsk)
  | ai@(.dict _) => do
      return some
        { condition := ← ai.get "condition" (.str "")
          question := ← ai.get "question" (.str "")
          type := ← ai.get "type" (.str "yes_no")
          choices := ← ai.get "choices" (.list [])
          onTimeout := ← ai.get "on_timeout" (.str "proceed") }
  | _ => .ok none

/-- Parse HITL config from YAML dict -/
def parseHitl (hitlRaw : Yaml) : Except Raised (Option RawHITL) := do
  if ¬ hitlRaw.truthy then return none
  let askUser ← (← (← hitlRaw.get "ask_user" (.list [])).iter).mapM parseAsk
  let askIf ← (← (← hitlRaw.get "ask_if" (.list [])).iter).mapM parseConditionalAsk
  return some
    { pause := ← hitlRaw.get "pause" (.bool false)
      askUser := askUser.filterMap id
      askIf := askIf.filterMap id
      onTimeout := ← hitlRaw.get "on_timeout" (.str "proceed")
      resumeTransitions := ← hitlRaw.get "resume_transitions" (.dict []) }

-- the text of a value, for a message
variable (text : Yaml → String)

def parseState (name : String) (s : Yaml) : Except Raised (String × RawState) := do
  match ← mapGet stateTypeMap (← s.get "type" (.str "intermediate")) with
  | none =>
      throw (.value ("Invalid state type for '" ++ name ++ "': " ++ text (← s.get "type" .null)))
  | some stateType =>
      let state : RawState :=
        { name := name
          stateType := stateType
          maxReentries := ← s.get "max_reentries" .null
          timeoutSeconds := ← s.get "timeout" .null
          entryHooks := ← s.get "entry" (.list [])
          exitHooks := ← s.get "exit" (.list [])
          validators := ← s.get "validators" (.list [])
          temporalMaxDuration := ← (← s.get "temporal" (.dict [])).get "max_duration" .null
          temporalOnTimeout := ← (← s.get "temporal" (.dict [])).get "on_timeout" .null
          reminders := ← (← s.get "temporal" (.dict [])).get "reminders" (.list [])
          requiresManual := ← s.get "requires_manual" (.bool false)
          hitl := ← parseHitl (← s.get "hitl" (.dict [])) }
      state.postInit
      return (name, state)

/-- The two states of a transition. -/
def splitArrow (raw : String) : Except Raised (String × String) :=
  let parts := if Lib.Text.contains " -> ".toList raw.toList then
      Lib.Text.split " -> ".toList raw.toList
    else raw.toList.splitOn '→'
  match parts with
  | [a, b] => .ok (String.ofList (Lib.Text.strip a), String.ofList (Lib.Text.strip b))
  | _ => .error .unpack

/-- Only transitions in a dict have more to say. -/
def transitionInfo (transitions : Yaml) (raw : String) : Yaml :=
  match transitions with
  | .dict entries => (entries.lookup raw).getD (.dict [])
  | _ => .dict []

def parseTransition (transitions : Yaml) : Yaml → Except Raised RawTransition
  | .str raw => do
      let (fromState, toState) ← splitArrow raw
      let info := transitionInfo transitions raw
      let transition : RawTransition :=
        { fromState := fromState
          toState := toState
          transitionType := ← mapGet transitionTypeMap (← info.get "type" (.str "REVERSIBLE"))
          condition := ← info.get "condition" .null
          action := ← info.get "action" .null
          requiresHuman := ← info.get "requires_human" (.bool false) }
      return transition
  | .list _ => .error .attribute
  | .dict _ => .error .attribute
  | _ => .error .type

def parseRule : Yaml → Except Raised (Option RawRule)
  | .str s => .ok (some { expression := .str s })
  | rule@(.dict _) => do
      return some
        { expression := ← rule.get "rule" (.str ""), withinSeconds := ← rule.get "within" .null }
  | _ => .ok none

def parseDict (raw : Yaml) : Except Raised RawConfig := do
  if ¬ raw.truthy then throw (.value "Empty YAML")
  let states ← (← (← raw.get "states" (.dict [])).items).mapM fun e => parseState text e.1 e.2
  let transitions ← raw.get "transitions" (.list [])
  let parsed ← (← transitions.iter).mapM (parseTransition transitions)
  let rules ← (← (← raw.get "temporal_constraints" (.list [])).iter).mapM parseRule
  let formal ← raw.get "formal_properties" (.dict [])
  let maxSteps ← (← formal.get "termination" (.dict [])).get "max_steps" (.int 100)
  let config : RawConfig :=
    { profile := ← raw.get "profile" (.str "unknown")
      name := ← raw.get "name" (.str "unnamed")
      version := ← raw.get "version" (.str "0.0.0")
      states := states
      transitions := parsed
      ltlRules := rules.filterMap id
      maxSteps := maxSteps }
  return config

end StateMachineParser

/-! Raw values as the machine has them. -/

namespace Yaml

def int? : Yaml → Option (Option Int)
  | null => some none
  | int i => some (some i)
  | _ => none

def text? : Yaml → Option (Option String)
  | null => some none
  | str s => some (some s)
  | _ => none

def str? : Yaml → Option String
  | str s => some s
  | _ => none

def bool? : Yaml → Option Bool
  | bool b => some b
  | _ => none

def texts? : Yaml → Option (List String)
  | list items => items.mapM str?
  | _ => none

def textDict? : Yaml → Option (List (String × String))
  | dict entries => entries.mapM fun e => e.2.str?.map fun s => (e.1, s)
  | _ => none

def ofInt : Option Int → Yaml
  | none => null
  | some i => int i

def ofText : Option String → Yaml
  | none => null
  | some s => str s

end Yaml

namespace RawHITL

open Yaml

def directive (a : RawAsk) : Option AskDirective := do
  let .int timeoutSeconds := a.timeoutSeconds | none
  return {
    question := ← a.question.str?
    type := ← a.type.str?
    choices := ← a.choices.texts?
    required := ← a.required.bool?
    timeoutSeconds := timeoutSeconds }

def conditional (a : RawConditionalAsk) : Option ConditionalAsk := do
  return {
    condition := ← a.condition.str?
    question := ← a.question.str?
    type := ← a.type.str?
    choices := ← a.choices.texts?
    onTimeout := ← a.onTimeout.str? }

def config (h : RawHITL) : Option HITLConfig := do
  return {
    askUser := ← h.askUser.mapM directive
    askIf := ← h.askIf.mapM conditional
    onTimeout := ← h.onTimeout.str?
    resumeTransitions := ← h.resumeTransitions.textDict? }

def configs : Option RawHITL → Option (Option HITLConfig)
  | none => some none
  | some h => h.config.map some

end RawHITL

/-- The definition of a state, where its fields are of the right types. -/
def RawState.definition (s : RawState) : Option StateDefinition := do
  let maxReentries ← s.maxReentries.int?
  let timeoutSeconds ← s.timeoutSeconds.int?
  let temporalOnTimeout ← s.temporalOnTimeout.text?
  let hitl ← RawHITL.configs s.hitl
  if h : (s.stateType = .terminal → maxReentries = none ∨ maxReentries = some 0) ∧
      (s.stateType = .initial → ∀ k ∈ maxReentries, k ≤ 1) then
    some
      { name := s.name
        stateType := s.stateType
        maxReentries := maxReentries
        timeoutSeconds := timeoutSeconds
        temporalOnTimeout := temporalOnTimeout
        hitl := hitl
        terminal_reentries := h.1
        initial_reentries := h.2 }
  else none

def RawTransition.definition (t : RawTransition) : Option TransitionDefinition := do
  return {
    fromState := t.fromState
    toState := t.toState
    transitionType := ← t.transitionType
    condition := ← t.condition.text?
    requiresHuman := ← t.requiresHuman.bool? }

def RawRule.rule (r : RawRule) : Option LTLRule := r.expression.str?.map LTLRule.mk

def RawConfig.config (c : RawConfig) : Option StateMachineConfig := do
  let states ← c.states.mapM fun e => e.2.definition.map fun s => (e.1, s)
  let transitions ← c.transitions.mapM RawTransition.definition
  let ltlRules ← c.ltlRules.mapM RawRule.rule
  if h : (states.map Prod.fst).Nodup then some ⟨states, transitions, ltlRules, h⟩ else none

namespace StateMachineParser

open Yaml Lib.Text

theorem bind_eq_ok {α β : Type} {x : Except Raised α} {f : α → Except Raised β} {b : β} :
    (x >>= f) = .ok b ↔ ∃ a, x = .ok a ∧ f a = .ok b := by
  cases x with
  | error e =>
      constructor
      · rintro ⟨⟩
      · rintro ⟨a, ⟨⟩, -⟩
  | ok a =>
      refine ⟨fun h => ⟨a, rfl, h⟩, ?_⟩
      rintro ⟨a, ⟨⟩, h⟩
      exact h

theorem mem_of_mapM_ok {α β : Type} {f : α → Except Raised β} {l : List α} {bs : List β}
    (h : l.mapM f = .ok bs) : ∀ b ∈ bs, ∃ a ∈ l, f a = .ok b := by
  induction l generalizing bs with
  | nil =>
      cases h
      exact fun b hb => absurd hb List.not_mem_nil
  | cons a l ih =>
      rw [List.mapM_cons] at h
      obtain ⟨b, hb, h⟩ := bind_eq_ok.mp h
      obtain ⟨bs', hbs, h⟩ := bind_eq_ok.mp h
      cases h
      intro x hx
      rcases List.mem_cons.mp hx with rfl | hx
      · exact ⟨a, List.mem_cons_self, hb⟩
      · obtain ⟨a', ha', hf⟩ := ih hbs x hx
        exact ⟨a', List.mem_cons_of_mem a ha', hf⟩

theorem isNull_iff {y : Yaml} : y.isNull = true ↔ y = .null := by
  cases y <;> simp [isNull]

/-- The assertions of a state hold when it is made. -/
theorem postInit_eq_ok_iff {s : RawState} : s.postInit = .ok () ↔
    (s.stateType = .terminal → s.maxReentries = .null ∨ s.maxReentries.isZero = true) ∧
      (s.stateType = .initial → s.maxReentries = .null ∨ s.maxReentries.atMostOne = .ok true) := by
  obtain ⟨name, stateType, maxReentries⟩ := s
  cases stateType with
  | terminal =>
      by_cases hnull : maxReentries = .null
      · subst hnull
        exact ⟨fun _ => ⟨fun _ => Or.inl rfl, fun _ => Or.inl rfl⟩, fun _ => rfl⟩
      · have hnot : maxReentries.isNull = false := eq_false_of_ne_true fun h => hnull (isNull_iff.mp h)
        by_cases hzero : maxReentries.isZero = true
        · simp [RawState.postInit, hnot, hzero]
          rfl
        · simp [RawState.postInit, hnull, hnot, hzero]
  | initial =>
      by_cases hnull : maxReentries = .null
      · subst hnull
        exact ⟨fun _ => ⟨fun _ => Or.inl rfl, fun _ => Or.inl rfl⟩, fun _ => rfl⟩
      · have hnot : maxReentries.isNull = false := eq_false_of_ne_true fun h => hnull (isNull_iff.mp h)
        simp [RawState.postInit, hnull, hnot]
        cases maxReentries.atMostOne with
        | error e => exact iff_of_false (fun h => by cases h) (fun h => by cases h)
        | ok b =>
            cases b with
            | false => exact iff_of_false (fun h => by cases h) (fun h => by cases h)
            | true => exact iff_of_true rfl rfl
  | intermediate => simp [RawState.postInit]; rfl
  | error => simp [RawState.postInit]; rfl
  | pause => simp [RawState.postInit]; rfl

theorem parseState_ok {text : Yaml → String} {name : String} {y : Yaml} {e : String × RawState}
    (h : parseState text name y = .ok e) : e.1 = name ∧ e.2.name = name ∧ e.2.postInit = .ok () := by
  obtain ⟨type, -, h⟩ := bind_eq_ok.mp h
  obtain ⟨stateType, -, h⟩ := bind_eq_ok.mp h
  cases stateType with
  | none =>
      obtain ⟨shown, -, h⟩ := bind_eq_ok.mp h
      cases h
  | some stateType =>
      iterate 14 obtain ⟨_, -, h⟩ := bind_eq_ok.mp h
      obtain ⟨_, hpost, h⟩ := bind_eq_ok.mp h
      cases h
      exact ⟨rfl, rfl, hpost⟩

theorem splitArrow_ok {raw a b : String} (h : splitArrow raw = .ok (a, b)) :
    strip a.toList = a.toList ∧ strip b.toList = b.toList := by
  rw [splitArrow] at h
  split at h
  · cases h
    rw [String.toList_ofList, String.toList_ofList]
    exact ⟨strip_strip _, strip_strip _⟩
  · cases h

theorem parseTransition_ok {transitions y : Yaml} {t : RawTransition}
    (h : parseTransition transitions y = .ok t) :
    strip t.fromState.toList = t.fromState.toList ∧ strip t.toState.toList = t.toState.toList := by
  cases y with
  | str raw =>
      obtain ⟨⟨a, b⟩, harrow, h⟩ := bind_eq_ok.mp h
      iterate 5 obtain ⟨_, -, h⟩ := bind_eq_ok.mp h
      cases h
      exact splitArrow_ok harrow
  | _ => cases h

/-- A state that passes its assertions has a definition once its fields are of the right types. -/
theorem isSome_definition {s : RawState} (h : s.postInit = .ok ())
    (hreentries : s.maxReentries.int?.isSome) (htimeout : s.timeoutSeconds.int?.isSome)
    (honTimeout : s.temporalOnTimeout.text?.isSome) (hhitl : (RawHITL.configs s.hitl).isSome) :
    s.definition.isSome := by
  obtain ⟨maxReentries, hm⟩ := Option.isSome_iff_exists.mp hreentries
  obtain ⟨timeoutSeconds, ht⟩ := Option.isSome_iff_exists.mp htimeout
  obtain ⟨temporalOnTimeout, ho⟩ := Option.isSome_iff_exists.mp honTimeout
  obtain ⟨hitl, hh⟩ := Option.isSome_iff_exists.mp hhitl
  obtain ⟨hterminal, hinitial⟩ := postInit_eq_ok_iff.mp h
  have hinvariant : (s.stateType = .terminal → maxReentries = none ∨ maxReentries = some 0) ∧
      (s.stateType = .initial → ∀ k ∈ maxReentries, k ≤ 1) := by
    cases hraw : s.maxReentries with
    | null =>
        rw [hraw] at hm
        cases hm
        exact ⟨fun _ => Or.inl rfl, fun _ k hk => absurd hk (Option.not_mem_none k)⟩
    | int i =>
        rw [hraw] at hm hterminal hinitial
        cases hm
        simpa [isZero, atMostOne] using And.intro hterminal hinitial
    | _ =>
        rw [hraw] at hm
        cases hm
  rw [RawState.definition, hm, ht, ho, hh]
  change (dite _ _ _ : Option StateDefinition).isSome = true
  rw [dif_pos hinvariant]
  rfl

def specDocument : Yaml := .dict
  [("states", .dict [("spec", .dict [("type", .str "initial"), ("max_reentries", .int 1)])]),
    ("transitions", .list [.str "spec→spec"])]

end StateMachineParser

end Prodinamik.Machine
