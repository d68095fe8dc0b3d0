import Mathlib.Logic.Function.Basic

namespace Prodinamik.Plugins

inductive PluginStatus
  | installed
  | disabled
  | enabled
  | error
  | uninstalled
  deriving DecidableEq, Repr

inductive PluginHookType
  | onStateEnter
  | onStateExit
  | onValidate
  | onTransition
  | onRunCreated
  | onRunCompleted
  | onError
  | onDegrade
  | onMetricsPoll
  | onStartup
  | onShutdown
  deriving DecidableEq, Repr

def PluginHookType.value : PluginHookType → String
  | onStateEnter => "on_state_enter"
  | onStateExit => "on_state_exit"
  | onValidate => "on_validate"
  | onTransition => "on_transition"
  | onRunCreated => "on_run_created"
  | onRunCompleted => "on_run_completed"
  | onError => "on_error"
  | onDegrade => "on_degrade"
  | onMetricsPoll => "on_metrics_poll"
  | onStartup => "on_startup"
  | onShutdown => "on_shutdown"

/-- A callable; not every one has a __name__. -/
structure Handler where
  object : Nat
  name : Option String
  deriving DecidableEq, Repr

structure PluginHook where
  hookType : PluginHookType
  state : String
  handler : Handler
  description : String := ""
  deriving DecidableEq, Repr

/-- The exceptions of HookRegistry.register: a ValueError and an AttributeError. -/
inductive HookError
  | invalidType (hookType : String)
  | noName
  deriving DecidableEq, Repr

/-- For each state the handlers under each type. -/
structure HookRegistry where
  hooks : String → Option (String → Option (List Handler)) := fun _ => none

namespace HookRegistry

def validTypes : List String := ["on_enter", "on_exit", "on_timeout", "on_hitl_timeout"]

def noHandlers (hookType : String) : Option (List Handler) :=
  if hookType ∈ validTypes then some [] else none

/-- The debug message behind the change looks for a __name__ where there is no description. -/
def register (r : HookRegistry) (state hookType : String) (handler : Handler)
    (description : String) : HookRegistry × Option HookError :=
  if hookType ∉ validTypes then (r, some (.invalidType hookType))
  else
    let table := (r.hooks state).getD noHandlers
    let handlers := (table hookType).getD [] ++ [handler]
    (⟨Function.update r.hooks state (some (Function.update table hookType (some handlers)))⟩,
      if description = "" ∧ handler.name = none then some .noName else none)

def unregister (r : HookRegistry) (state hookType : String) (handler : Handler) : HookRegistry :=
  match r.hooks state with
  | none => r
  | some table =>
    match table hookType with
    | none => r
    | some handlers =>
        let kept := handlers.filter fun h => h ≠ handler
        ⟨Function.update r.hooks state (some (Function.update table hookType (some kept)))⟩

def handlers (r : HookRegistry) (state hookType : String) : List Handler :=
  ((r.hooks state).bind fun table => table hookType).getD []

theorem handlers_unregister (r : HookRegistry) (state hookType : String) (handler : Handler) :
    (r.unregister state hookType handler).handlers state hookType =
      (r.handlers state hookType).filter fun h => h ≠ handler := by
  rw [unregister]
  cases hstate : r.hooks state with
  | none => simp [handlers, hstate]
  | some table =>
      cases htype : table hookType with
      | none => simp [handlers, hstate, htype]
      | some known => simp [handlers, hstate, htype]

end HookRegistry

structure PluginManifest where
  id : String
  version : String
  dependencies : List String := []
  deriving DecidableEq, Repr

/-- An instance of a plugin class. -/
structure Plugin where
  manifest : PluginManifest
  hooks : List PluginHook
  deriving DecidableEq, Repr

structure PluginState where
  status : PluginStatus
  manifest : PluginManifest
  plugin : Plugin
  error : Option HookError := none
  errorCount : Nat := 0
  deriving DecidableEq, Repr

structure PluginRegistry where
  plugins : String → Option PluginState := fun _ => none
  hookRegistry : HookRegistry := {}

/-- The state under which the hooks of a plugin are registered. -/
def hookState (pluginId state : String) : String := "plugin:" ++ pluginId ++ ":" ++ state

namespace PluginRegistry

def set (p : PluginRegistry) (pluginId : String) (state : Option PluginState) : PluginRegistry :=
  { p with plugins := Function.update p.plugins pluginId state }

@[simp] theorem set_plugins_self (p : PluginRegistry) (pluginId : String)
    (state : Option PluginState) : (p.set pluginId state).plugins pluginId = state :=
  Function.update_self ..

@[simp] theorem set_plugins_of_ne (p : PluginRegistry) {pluginId id : String}
    (h : id ≠ pluginId) (state : Option PluginState) :
    (p.set pluginId state).plugins id = p.plugins id :=
  Function.update_of_ne h ..

/-- A class that is known in the same version is left alone. -/
def registerClass (p : PluginRegistry) (c : Plugin) : PluginRegistry × Bool :=
  match p.plugins c.manifest.id with
  | none => (p.set c.manifest.id (some ⟨.disabled, c.manifest, c, none, 0⟩), true)
  | some existing =>
      if existing.manifest.version = c.manifest.version then (p, false)
      else (p.set c.manifest.id (some ⟨.disabled, c.manifest, c, none, 0⟩), true)

/-- Registers the classes that are found, the built-in ones first; the number
of new ones. -/
def discover (p : PluginRegistry) (classes : List Plugin) : PluginRegistry × Nat :=
  classes.foldl (fun r c =>
    let s := r.1.registerClass c
    (s.1, if s.2 then r.2 + 1 else r.2)) (p, 0)

/-- The first exception ends the loop. -/
def registerHooks (r : HookRegistry) (pluginId : String) :
    List PluginHook → HookRegistry × Option HookError
  | [] => (r, none)
  | hook :: hooks =>
    match r.register (hookState pluginId hook.state) hook.hookType.value hook.handler
        hook.description with
    | (r, some e) => (r, some e)
    | (r, none) => registerHooks r pluginId hooks

def enable (p : PluginRegistry) (pluginId : String) : PluginRegistry × Bool :=
  match p.plugins pluginId with
  | none => (p, false)
  | some state =>
      if state.status = .enabled then (p, true)
      else
        let state := if state.status = .error then { state with error := none } else state
        let r := registerHooks p.hookRegistry pluginId state.plugin.hooks
        let p := { p with hookRegistry := r.1 }
        match r.2 with
        | none => (p.set pluginId (some { state with status := .enabled }), true)
        | some e =>
            let failed : PluginState :=
              { state with status := .error, error := some e, errorCount := state.errorCount + 1 }
            (p.set pluginId (some failed), false)

def disable (p : PluginRegistry) (pluginId : String) : PluginRegistry × Bool :=
  match p.plugins pluginId with
  | none => (p, false)
  | some state =>
      if state.status ≠ .enabled then (p, true)
      else (p.set pluginId (some { state with status := .disabled }), true)

def isEnabled (p : PluginRegistry) (pluginId : String) : Bool :=
  match p.plugins pluginId with
  | none => false
  | some state => state.status = .enabled

/-- Deletes the plugin, after it is disabled if it was enabled. -/
def delete (p : PluginRegistry) (pluginId : String) : PluginRegistry :=
  (if p.isEnabled pluginId then (p.disable pluginId).1 else p).set pluginId none

def uninstall (p : PluginRegistry) (pluginId : String) : PluginRegistry × Bool :=
  match p.plugins pluginId with
  | none => (p, false)
  | some _ => (p.delete pluginId, true)

/-- The plugin comes back if its class is found again. -/
def reload (p : PluginRegistry) (pluginId : String) (classes : List Plugin) : PluginRegistry × Bool :=
  let q := ((p.delete pluginId).discover classes).1
  if p.isEnabled pluginId ∧ (q.plugins pluginId).isSome then q.enable pluginId
  else (q, (q.plugins pluginId).isSome)

end PluginRegistry

end Prodinamik.Plugins
