import Mathlib.Logic.Function.Basic
import Prodinamik.Lib.Json

namespace Prodinamik.Agents

open Lib Json

abbrev Dict (F : Type) := List (String × Value F)

inductive ToolStatus
  | available
  | busy
  | error
  | disabled
  deriving DecidableEq, Repr

structure ToolExecutionRecord (F : Type) where
  toolName : String
  inputParams : Dict F
  output : Dict F := []
  durationMs : F
  success : Bool := true
  error : Option String := none

structure ToolHandler (F : Type) where
  name : String
  timeout : F
  description : String := ""
  parameters : Dict F := []

structure ToolExecutor (F : Type) where
  tools : List (String × ToolHandler F) := []
  history : List (ToolExecutionRecord F) := []
  status : List (String × ToolStatus) := []

/-- How the call of a tool ends, and after how many milliseconds. -/
inductive Called (F : Type)
  | returned (result : Value F) (durationMs : F)
  | timedOut (durationMs : F)
  | raised (error trace : String) (durationMs : F)

namespace ToolExecutor

variable {fl : Floats}

def register (e : ToolExecutor fl.Num) (handler : ToolHandler fl.Num) : ToolExecutor fl.Num :=
  { e with
    tools := setItem e.tools (handler.name, handler)
    status := setItem e.status (handler.name, .available) }

def setDefault (d : Dict fl.Num) (m : String × Value fl.Num) : Dict fl.Num :=
  if (d.lookup m.1).isSome then d else d ++ [m]

/-- A result that is a dict is taken as it is. -/
def normalizeResult (result : Value fl.Num) (toolName : String) (durationMs : fl.Num) :
    Dict fl.Num :=
  let resultDict := match result with
    | .obj members => members
    | other => [("result", other)]
  setDefault (setDefault resultDict ("_tool", .str toolName)) ("_duration_ms", .float durationMs)

/-- The end of a call, on the executor as it is then. -/
def finish (e : ToolExecutor fl.Num) (handler : ToolHandler fl.Num) (toolName : String)
    (params : Dict fl.Num) : Called fl.Num → Dict fl.Num × ToolExecutor fl.Num
  | .returned result durationMs =>
      let resultDict :=
        setItem (normalizeResult result toolName durationMs) ("success", .bool true)
      (resultDict,
        { e with
          history := e.history ++ [⟨toolName, params, resultDict, durationMs, true, none⟩]
          status := setItem e.status (toolName, .available) })
  | .timedOut durationMs =>
      let err := "Tool '" ++ toolName ++ "' timed out after " ++
        String.ofList (fl.repr handler.timeout) ++ "s"
      ([("error", .str err), ("_tool", .str toolName), ("_duration_ms", .float durationMs)],
        { e with
          history := e.history ++ [⟨toolName, params, [], durationMs, false, some err⟩]
          status := setItem e.status (toolName, .available) })
  | .raised error trace durationMs =>
      ([("error", .str error), ("_trace", .str trace), ("_tool", .str toolName),
          ("_duration_ms", .float durationMs)],
        { e with
          history := e.history ++ [⟨toolName, params, [], durationMs, false, some error⟩]
          status := setItem e.status (toolName, .error) })

end ToolExecutor

/-- What happens while a call is awaited: what the tool does, and what other tasks do,
with the executor too. -/
abbrev Awaited (fl : Floats) (W : Type) :=
  ToolExecutor fl.Num → W → ToolHandler fl.Num → Dict fl.Num →
    Called fl.Num × ToolExecutor fl.Num × W

/-- One element of the list that chain is given. -/
structure ToolDefinition (F : Type) where
  tool : String
  params : Dict F := []
  map : List (String × String) := []

namespace ToolExecutor

variable {fl : Floats} {W : Type} (awaited : Awaited fl W)

def execute (e : ToolExecutor fl.Num) (w : W) (toolName : String) (params : Dict fl.Num) :
    Dict fl.Num × ToolExecutor fl.Num × W :=
  match e.tools.lookup toolName with
  | none =>
      ([("error", .str ("Tool '" ++ toolName ++ "' not found")),
          ("available", .arr (e.tools.map fun t => .str t.1)), ("_tool", .str toolName)], e, w)
  | some handler =>
      let (called, e', w') := awaited
        { e with status := setItem e.status (toolName, .busy) } w handler params
      let (result, e'') := finish e' handler toolName params called
      (result, e'', w')

/-- A text that begins with $ is a reference to a key of the context. -/
def reference : Value fl.Num → Option String
  | .str s =>
      match s.toList with
      | '$' :: refKey => some (String.ofList refKey)
      | _ => none
  | _ => none

/-- A reference to a key that the context does not have stays as it is. -/
def resolve (context : Dict fl.Num) (params : Dict fl.Num) : Dict fl.Num :=
  params.map fun p => (p.1, ((reference p.2).bind fun refKey => context.lookup refKey).getD p.2)

/-- What a result has under a key, on its own or in the dict that is its result. -/
def output (result : Dict fl.Num) (fromKey : String) : Option (Value fl.Num) :=
  match result.lookup fromKey with
  | some v => some v
  | none =>
      match result.lookup "result" with
      | some (.obj members) => members.lookup fromKey
      | _ => none

def assign (result context : Dict fl.Num) (m : String × String) : Dict fl.Num :=
  match output result m.1 with
  | some v => setItem context (m.2, v)
  | none => context

/-- The results of a chain of tools, each of which is given what the ones before have left
in the context. A failed tool does not end the chain. -/
def chain : List (ToolDefinition fl.Num) → Dict fl.Num → ToolExecutor fl.Num → W →
    List (Dict fl.Num) × ToolExecutor fl.Num × W
  | [], _, e, w => ([], e, w)
  | d :: ds, context, e, w =>
      let (result, e', w') := execute awaited e w d.tool (resolve context d.params)
      let (results, e'', w'') := chain ds (d.map.foldl (assign result) context) e' w'
      (result :: results, e'', w'')

end ToolExecutor

/-! The names of the keys of a context. -/

namespace ToolDefinition

variable {fl : Floats}

open ToolExecutor

/-- The keys of the context that are referred to. -/
def refKeys (d : ToolDefinition fl.Num) : List String := d.params.filterMap fun p => reference p.2

def renameValue (f : String → String) (v : Value fl.Num) : Value fl.Num :=
  match reference v with
  | some refKey => .str ("$" ++ f refKey)
  | none => v

/-- Two chains that are the same but for the names of the keys of the context, and for
keys that no later tool refers to, which the second need not set. -/
inductive Renamed (f : String → String) :
    List (ToolDefinition fl.Num) → List (ToolDefinition fl.Num) → Prop
  | nil : Renamed f [] []
  | cons {d d' : ToolDefinition fl.Num} {ds ds' : List (ToolDefinition fl.Num)}
      (keep : String → Bool) (hkeep : ∀ key ∈ ds.flatMap refKeys, keep key)
      (htool : d'.tool = d.tool)
      (hparams : d'.params = d.params.map fun p => (p.1, renameValue f p.2))
      (hmap : d'.map = (d.map.filter fun m => keep m.2).map fun m => (m.1, f m.2))
      (hrest : Renamed f ds ds') : Renamed f (d :: ds) (d' :: ds')

end ToolDefinition

namespace ToolExecutor

open ToolDefinition

variable {fl : Floats} {W : Type} (awaited : Awaited fl W)

/-- Every key that a tool of the chain refers to is there when its turn comes. -/
def Bound : List (ToolDefinition fl.Num) → Dict fl.Num → ToolExecutor fl.Num → W → Prop
  | [], _, _, _ => True
  | d :: ds, context, e, w =>
      (∀ key ∈ d.refKeys, (context.lookup key).isSome) ∧
        let (result, e', w') := execute awaited e w d.tool (resolve context d.params)
        Bound ds (d.map.foldl (assign result) context) e' w'

theorem lookup_setItem (ms : Dict fl.Num) (m : String × Value fl.Num) (key : String) :
    (setItem ms m).lookup key = if key = m.1 then some m.2 else ms.lookup key := by
  induction ms with
  | nil =>
      rw [setItem, List.lookup_cons]
      by_cases hkey : key = m.1
      · rw [beq_iff_eq.mpr hkey, if_pos hkey]
      · rw [beq_eq_false_iff_ne.mpr hkey, if_neg hkey]
  | cons m' ms ih =>
      rw [setItem]
      split
      · rename_i heq
        rw [List.lookup_cons, List.lookup_cons, heq]
        by_cases hkey : key = m.1
        · rw [beq_iff_eq.mpr hkey, if_pos hkey]
        · rw [beq_eq_false_iff_ne.mpr hkey, if_neg hkey]
      · rename_i hne
        rw [List.lookup_cons, List.lookup_cons]
        by_cases hkey : key = m'.1
        · rw [beq_iff_eq.mpr hkey, if_neg fun heq => hne (hkey.symm.trans heq)]
        · rw [beq_eq_false_iff_ne.mpr hkey]
          exact ih

theorem lookup_assign (result context : Dict fl.Num) (m : String × String) (key : String) :
    (assign result context m).lookup key =
      if key = m.2 then (output result m.1).or (context.lookup key) else context.lookup key := by
  rw [assign]
  cases output result m.1 with
  | none => rw [Option.none_or, ite_self]
  | some v => rw [lookup_setItem, Option.some_or]

/-- The keys that are read have in both contexts what they had, or what the result gives them. -/
theorem lookup_foldl_assign {f : String → String} (hf : Function.Injective f) {keep : String → Bool}
    {read : List String} (hkeep : ∀ key ∈ read, keep key) (result : Dict fl.Num)
    (entries : List (String × String)) {context context' : Dict fl.Num}
    (h : ∀ key ∈ read, context'.lookup (f key) = context.lookup key) {key : String}
    (hkey : key ∈ read) :
    (((entries.filter fun m => keep m.2).map fun m => (m.1, f m.2)).foldl (assign result)
      context').lookup (f key) = (entries.foldl (assign result) context).lookup key := by
  induction entries generalizing context context' with
  | nil => exact h key hkey
  | cons m entries ih =>
      rw [List.foldl_cons]
      by_cases hm : keep m.2
      · rw [List.filter_cons_of_pos (by exact hm), List.map_cons, List.foldl_cons]
        refine ih fun key hkey => ?_
        rw [lookup_assign, lookup_assign, h key hkey]
        simp only [hf.eq_iff]
      · rw [List.filter_cons_of_neg (by exact hm)]
        refine ih fun key hkey => ?_
        have hne : key ≠ m.2 := by
          rintro rfl
          exact hm (hkeep _ hkey)
        rw [lookup_assign, if_neg hne]
        exact h key hkey

theorem reference_dollar (key : String) : @reference fl (.str ("$" ++ key)) = some key := by
  have htext : ("$" ++ key).toList = '$' :: key.toList := String.toList_append
  rw [reference, htext]
  exact congrArg some String.ofList_toList

theorem resolve_renamed {f : String → String} {context context' params : Dict fl.Num}
    (hbound : ∀ key ∈ params.filterMap fun p => reference p.2, (context.lookup key).isSome)
    (h : ∀ key ∈ params.filterMap fun p => reference p.2,
      context'.lookup (f key) = context.lookup key) :
    resolve context' (params.map fun p => (p.1, renameValue f p.2)) = resolve context params := by
  rw [resolve, List.map_map]
  refine List.map_congr_left fun p hp => ?_
  rw [Function.comp_apply, renameValue]
  cases href : reference p.2 with
  | none => simp only [href, Option.bind_none, Option.getD_none]
  | some key =>
      have hmem : key ∈ params.filterMap fun p => reference p.2 :=
        List.mem_filterMap.mpr ⟨p, hp, href⟩
      obtain ⟨v, hv⟩ := Option.isSome_iff_exists.mp (hbound key hmem)
      simp only [reference_dollar, Option.bind_some, h key hmem, hv, Option.getD_some]

/-- The results of a chain, and all that it does to the executor and to the rest of the world,
depend neither on the names of the keys of the context nor on keys that are not read. -/
theorem chain_renamed {f : String → String} (hf : Function.Injective f)
    {ds ds' : List (ToolDefinition fl.Num)} (hrenamed : Renamed f ds ds')
    {context context' : Dict fl.Num} {e : ToolExecutor fl.Num} {w : W}
    (hbound : Bound awaited ds context e w)
    (hcontext : ∀ key ∈ ds.flatMap refKeys, context'.lookup (f key) = context.lookup key) :
    chain awaited ds' context' e w = chain awaited ds context e w := by
  induction hrenamed generalizing context context' e w with
  | nil => rfl
  | @cons d d' ds ds' keep hkeep htool hparams hmap hrest ih =>
      obtain ⟨hfirst, hlater⟩ := hbound
      rw [List.flatMap_cons] at hcontext
      have hresolve : resolve context' d'.params = resolve context d.params := by
        rw [hparams]
        exact resolve_renamed hfirst fun key hkey => hcontext key (List.mem_append_left _ hkey)
      rw [chain, chain, htool, hresolve]
      generalize execute awaited e w d.tool (resolve context d.params) = r at hlater ⊢
      obtain ⟨result, e', w'⟩ := r
      have hnext : chain awaited ds' (d'.map.foldl (assign result) context') e' w' =
          chain awaited ds (d.map.foldl (assign result) context) e' w' := by
        refine ih hlater fun key hkey => ?_
        rw [hmap]
        exact lookup_foldl_assign hf hkeep result d.map
          (fun key hkey => hcontext key (List.mem_append_right _ hkey)) hkey
      simp only [hnext]

/-! A search, and a summary of what has been found. -/

def searching : List (ToolDefinition Floats.single.Num) :=
  [{ tool := "search", params := [("query", .str "$topic")],
     map := [("notes", "found"), ("hits", "count")] },
   { tool := "summarize", params := [("text", .str "$found"), ("style", .str "short")] }]

def searchingInTask : List (ToolDefinition Floats.single.Num) :=
  [{ tool := "search", params := [("query", .str "$task.topic")],
     map := [("notes", "task.found")] },
   { tool := "summarize", params := [("text", .str "$task.found"), ("style", .str "short")] }]

/-- Every tool finds a note. -/
def noting : Awaited .single Unit := fun e w _ _ =>
  (.returned (.obj [("notes", .str "a note"), ("hits", .int 1)]) (), e, w)

def twoTools : ToolExecutor Floats.single.Num :=
  (({} : ToolExecutor Floats.single.Num).register { name := "search", timeout := () }).register
    { name := "summarize", timeout := () }

/-- With the keys of a task, and without the count that nothing reads. -/
theorem chain_renamed_searching :
    chain noting searchingInTask [("task.topic", .str "logs")] twoTools () =
      chain noting searching [("topic", .str "logs")] twoTools () := by
  have hinjective : Function.Injective fun key : String => "task." ++ key :=
    fun key key' h => (String.append_right_inj "task.").mp h
  have hrenamed : Renamed (fun key => "task." ++ key) searching searchingInTask := by
    refine .cons (fun key => key = "found") (by decide) rfl rfl (by decide) ?_
    exact .cons (fun _ => false) (by decide) rfl rfl (by decide) .nil
  have hkeys : searching.flatMap refKeys = ["topic", "found"] := by decide
  refine chain_renamed noting hinjective hrenamed ⟨by decide, by decide, trivial⟩ fun key hkey => ?_
  rw [hkeys, List.mem_pair] at hkey
  obtain rfl | rfl := hkey
  · rfl
  · rfl

end ToolExecutor

end Prodinamik.Agents
