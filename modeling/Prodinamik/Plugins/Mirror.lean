import Prodinamik.Lib.Run
import Prodinamik.Plugins.PluginRegistry

namespace Prodinamik.Plugins

open Lib

namespace HookRegistry

theorem value_not_valid (t : PluginHookType) : t.value ∉ validTypes := by cases t <;> decide

/-- No hook of a plugin is registered. -/
def Clean (r : HookRegistry) : Prop :=
  ∀ pluginId state hookType, r.handlers (hookState pluginId state) hookType = []

end HookRegistry

namespace PluginRegistry

/-- The values of PluginHookType are none of the types that register takes. -/
theorem registerHooks_eq (r : HookRegistry) (pluginId : String) (hooks : List PluginHook) :
    registerHooks r pluginId hooks =
      (r, hooks.head?.map fun hook => .invalidType hook.hookType.value) := by
  cases hooks with
  | nil => rfl
  | cons hook hooks =>
      rw [registerHooks, HookRegistry.register, if_pos (HookRegistry.value_not_valid hook.hookType)]
      rfl

inductive Op
  | enable (pluginId : String)
  | disable (pluginId : String)
  | reload (pluginId : String) (classes : List Plugin)
  | uninstall (pluginId : String)

def perform (p : PluginRegistry) : Op → PluginRegistry × Bool
  | .enable pluginId => p.enable pluginId
  | .disable pluginId => p.disable pluginId
  | .reload pluginId classes => p.reload pluginId classes
  | .uninstall pluginId => p.uninstall pluginId

def step (p : PluginRegistry) (op : Op) : PluginRegistry := (p.perform op).1

/-- A registry that has discovered some classes. -/
def start (r : HookRegistry) (classes : List Plugin) : PluginRegistry :=
  (({ hookRegistry := r } : PluginRegistry).discover classes).1

/-- The plugin is enabled and has the hook. -/
def active (p : PluginRegistry) (pluginId : String) (hook : PluginHook) : Bool :=
  match p.plugins pluginId with
  | none => false
  | some s => s.status = .enabled && hook ∈ s.plugin.hooks

/-- How often the hook of the plugin is registered. -/
def registered (p : PluginRegistry) (pluginId : String) (hook : PluginHook) : Nat :=
  (p.hookRegistry.handlers (hookState pluginId hook.state) hook.hookType.value).count hook.handler

/-- The hooks of the enabled plugins are registered, each once, and no others. -/
def Mirrors (p : PluginRegistry) : Prop :=
  ∀ pluginId hook, p.registered pluginId hook = if p.active pluginId hook then 1 else 0

/-- The class that is registered under an unknown id when these are found. -/
def found (classes : List Plugin) (pluginId : String) : Option Plugin :=
  classes.foldl (fun known c =>
    if c.manifest.id = pluginId ∧ (known.map fun k => k.manifest.version) ≠ some c.manifest.version
    then some c else known) none

/-- Enabling a known plugin succeeds, also where reload does it. -/
def Right (p : PluginRegistry) : Op → Prop
  | .enable pluginId => (p.plugins pluginId).isSome → (p.enable pluginId).2 = true
  | .reload pluginId classes =>
      p.isEnabled pluginId → (found classes pluginId).isSome → (p.reload pluginId classes).2 = true
  | _ => True

/-- The plugin that is to be enabled has no hooks. -/
def Op.Allowed (p : PluginRegistry) : Op → Prop
  | .enable pluginId =>
      ∀ s, p.plugins pluginId = some s → s.status ≠ .enabled → s.plugin.hooks = []
  | .reload pluginId classes =>
      p.isEnabled pluginId → ∀ c, found classes pluginId = some c → c.hooks = []
  | _ => True

/-- Plugins with hooks never get enabled. -/
structure Inv (p : PluginRegistry) : Prop where
  clean : p.hookRegistry.Clean
  hookless : ∀ pluginId s, p.plugins pluginId = some s → s.status = .enabled → s.plugin.hooks = []

theorem Inv.mirrors {p : PluginRegistry} (h : Inv p) : p.Mirrors := by
  intro pluginId hook
  have hactive : p.active pluginId hook = false := by
    rw [active]
    cases hs : p.plugins pluginId with
    | none => rfl
    | some s =>
        by_cases henabled : s.status = .enabled
        · simp [h.hookless pluginId s hs henabled]
        · simp [henabled]
  rw [registered, h.clean, hactive]
  rfl

/-- A record that is put in place keeps the invariant unless it enables a plugin with hooks. -/
theorem Inv.set {p : PluginRegistry} (h : Inv p) (pluginId : String) {state : Option PluginState}
    (hstate : ∀ s, state = some s → s.status = .enabled → s.plugin.hooks = []) :
    Inv (p.set pluginId state) where
  clean := h.clean
  hookless := by
    intro id s hs
    by_cases hid : id = pluginId
    · rw [hid, set_plugins_self] at hs
      exact hstate s hs
    · rw [set_plugins_of_ne _ hid] at hs
      exact h.hookless id s hs

theorem Inv.registerClass {p : PluginRegistry} (h : Inv p) (c : Plugin) :
    Inv (p.registerClass c).1 := by
  rw [PluginRegistry.registerClass]
  split
  · refine h.set _ ?_
    rintro s ⟨⟩ ⟨⟩
  · split
    · exact h
    · refine h.set _ ?_
      rintro s ⟨⟩ ⟨⟩

theorem Inv.discover {p : PluginRegistry} (h : Inv p) (classes : List Plugin) :
    Inv (p.discover classes).1 := by
  have hfold : ∀ r : PluginRegistry × Nat, Inv r.1 → Inv (classes.foldl (fun r c =>
      let s := r.1.registerClass c
      (s.1, if s.2 then r.2 + 1 else r.2)) r).1 := by
    induction classes with
    | nil => exact fun _ hr => hr
    | cons c classes ih => exact fun r hr => ih _ (hr.registerClass c)
  exact hfold (p, 0) h

/-- What enable does to a plugin that is known and not enabled. -/
theorem enable_known {p : PluginRegistry} {pluginId : String} {s : PluginState}
    (hs : p.plugins pluginId = some s) (hne : s.status ≠ .enabled) :
    ∃ s' : PluginState, p.enable pluginId = (p.set pluginId (some s'), s.plugin.hooks.isEmpty) ∧
      (s'.status = .enabled → s'.plugin.hooks = []) := by
  have hplugin : (if s.status = .error then { s with error := none } else s).plugin = s.plugin := by
    split <;> rfl
  rw [enable, hs]
  simp only [if_neg hne, registerHooks_eq, hplugin]
  cases hhooks : s.plugin.hooks with
  | nil => exact ⟨_, rfl, fun _ => hplugin ▸ hhooks⟩
  | cons hook hooks => exact ⟨_, rfl, fun h => by cases h⟩

theorem Inv.enable {p : PluginRegistry} (h : Inv p) (pluginId : String) :
    Inv (p.enable pluginId).1 := by
  cases hs : p.plugins pluginId with
  | none =>
      rw [PluginRegistry.enable, hs]
      exact h
  | some s =>
      by_cases henabled : s.status = .enabled
      · rw [PluginRegistry.enable, hs]
        simp only [if_pos henabled]
        exact h
      · obtain ⟨s', hs', hhooks⟩ := enable_known hs henabled
        rw [hs']
        refine h.set pluginId ?_
        rintro s ⟨⟩
        exact hhooks

theorem Inv.disable {p : PluginRegistry} (h : Inv p) (pluginId : String) :
    Inv (p.disable pluginId).1 := by
  rw [PluginRegistry.disable]
  split
  · exact h
  · split
    · exact h
    · refine h.set pluginId ?_
      rintro s ⟨⟩ ⟨⟩

theorem Inv.delete {p : PluginRegistry} (h : Inv p) (pluginId : String) :
    Inv (p.delete pluginId) := by
  rw [PluginRegistry.delete]
  refine Inv.set ?_ pluginId ?_
  · split
    · exact h.disable pluginId
    · exact h
  · rintro s ⟨⟩

theorem Inv.step {p : PluginRegistry} (h : Inv p) (op : Op) : Inv (p.step op) := by
  cases op with
  | enable pluginId => exact h.enable pluginId
  | disable pluginId => exact h.disable pluginId
  | reload pluginId classes =>
      have hfound := (h.delete pluginId).discover classes
      rw [PluginRegistry.step, perform, reload]
      split
      · exact hfound.enable pluginId
      · exact hfound
  | uninstall pluginId =>
      rw [PluginRegistry.step, perform, uninstall]
      split
      · exact h
      · exact h.delete pluginId

theorem inv_start {r : HookRegistry} (hr : r.Clean) (classes : List Plugin) : Inv (start r classes) := by
  refine Inv.discover ?_ classes
  exact ⟨hr, fun _ _ hs => by cases hs⟩

/-- What is known of a plugin that was deleted before its class is looked for. -/
theorem discover_plugins {p : PluginRegistry} {pluginId : String} (hp : p.plugins pluginId = none)
    (classes : List Plugin) :
    (p.discover classes).1.plugins pluginId =
      (found classes pluginId).map fun c => ⟨.disabled, c.manifest, c, none, 0⟩ := by
  have hfold : ∀ (r : PluginRegistry × Nat) (known : Option Plugin),
      r.1.plugins pluginId = known.map (fun c => ⟨.disabled, c.manifest, c, none, 0⟩) →
      (classes.foldl (fun r c =>
        let s := r.1.registerClass c
        (s.1, if s.2 then r.2 + 1 else r.2)) r).1.plugins pluginId =
      (classes.foldl (fun known c =>
        if c.manifest.id = pluginId ∧
          (known.map fun k => k.manifest.version) ≠ some c.manifest.version
        then some c else known) known).map fun c => ⟨.disabled, c.manifest, c, none, 0⟩ := by
    induction classes with
    | nil => exact fun _ _ h => h
    | cons c classes ih =>
        intro r known hknown
        refine ih _ _ ?_
        simp only [registerClass]
        by_cases hid : c.manifest.id = pluginId
        · subst hid
          rw [hknown]
          cases known with
          | none => simp
          | some k =>
              by_cases hversion : k.manifest.version = c.manifest.version
              · simp [hversion, hknown]
              · simp [hversion]
        · rw [if_neg (fun h => hid h.1), ← hknown]
          split
          · exact set_plugins_of_ne _ (Ne.symm hid) _
          · split
            · rfl
            · exact set_plugins_of_ne _ (Ne.symm hid) _
  exact hfold (p, 0) none hp

theorem right_iff_allowed (p : PluginRegistry) (op : Op) : Right p op ↔ op.Allowed p := by
  cases op with
  | enable pluginId =>
      rw [Right, Op.Allowed]
      cases hs : p.plugins pluginId with
      | none => simp
      | some s =>
          by_cases henabled : s.status = .enabled
          · simp [enable, hs, henabled]
          · obtain ⟨s', hs', -⟩ := enable_known hs henabled
            simp [hs', henabled]
  | reload pluginId classes =>
      rw [Right, Op.Allowed]
      refine imp_congr_right fun henabled => ?_
      have hdeleted : (p.delete pluginId).plugins pluginId = none := set_plugins_self ..
      have hq := discover_plugins hdeleted classes
      cases hc : found classes pluginId with
      | none => simp
      | some c =>
          rw [hc] at hq
          obtain ⟨s', hs', -⟩ := enable_known hq (by simp)
          have hreload : p.reload pluginId classes =
              ((p.delete pluginId).discover classes).1.enable pluginId := by
            rw [reload]
            exact if_pos ⟨henabled, by rw [hq]; rfl⟩
          simp [hreload, hs']
  | disable pluginId => exact Iff.rfl
  | uninstall pluginId => exact Iff.rfl

def notifier (hooks : List PluginHook) : Plugin := ⟨⟨"notifier", "1.0", []⟩, hooks⟩

theorem clean_empty : ({} : HookRegistry).Clean := fun _ _ _ => rfl

def notifierOps : List Op :=
  [.enable "notifier", .reload "notifier" [notifier []], .disable "notifier", .uninstall "notifier"]

end PluginRegistry

end Prodinamik.Plugins
