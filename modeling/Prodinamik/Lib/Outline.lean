import Mathlib.Data.List.Basic

namespace Prodinamik.Lib

/-- A dict of dicts, with the entries in the order of their insertion. -/
inductive Outline (κ ν : Type)
  | nil
  | leaf (key : κ) (value : ν) (rest : Outline κ ν)
  | node (key : κ) (body rest : Outline κ ν)
  deriving DecidableEq, Repr

namespace Outline

variable {κ ν : Type}

def keys : Outline κ ν → List κ
  | nil => []
  | leaf key _ rest => key :: rest.keys
  | node key _ rest => key :: rest.keys

def append : Outline κ ν → Outline κ ν → Outline κ ν
  | nil, o => o
  | leaf key value rest, o => leaf key value (rest.append o)
  | node key body rest, o => node key body (rest.append o)

/-- What is stored under a key: a value, or no value for a new dict. -/
def entry (key : κ) (value : Option ν) (rest : Outline κ ν) : Outline κ ν :=
  match value with
  | none => node key nil rest
  | some v => leaf key v rest

section Assign

variable [DecidableEq κ]

/-- An entry replaces the one under its key or comes last. -/
def assign (key : κ) (value : Option ν) : Outline κ ν → Outline κ ν
  | nil => entry key value nil
  | leaf k v rest => if k = key then entry key value rest else leaf k v (rest.assign key value)
  | node k body rest => if k = key then entry key value rest else node k body (rest.assign key value)

/-- The same in the dict that the keys of a path lead to. -/
def assignAt : List κ → κ → Option ν → Outline κ ν → Outline κ ν
  | [], key, value, o => o.assign key value
  | _ :: _, _, _, nil => nil
  | p :: path, key, value, leaf k v rest => leaf k v (rest.assignAt (p :: path) key value)
  | p :: path, key, value, node k body rest =>
      if k = p then node k (body.assignAt path key value) rest
      else node k body (rest.assignAt (p :: path) key value)

def get (key : κ) : Outline κ ν → Option (ν ⊕ Outline κ ν)
  | nil => none
  | leaf k v rest => if k = key then some (.inl v) else rest.get key
  | node k body rest => if k = key then some (.inr body) else rest.get key

end Assign

/-- A line: how deep it is, its key, and its value unless it opens a dict. -/
structure Line (κ ν : Type) where
  depth : Nat
  key : κ
  value : Option ν

/-- The dict read so far, with the keys of the dicts that are open. -/
structure Reading (κ ν : Type) where
  result : Outline κ ν := nil
  opened : List κ := []

/-- A line closes the dicts that are as deep as it is. -/
def Reading.read [DecidableEq κ] (r : Reading κ ν) (line : Line κ ν) : Reading κ ν where
  result := r.result.assignAt (r.opened.take line.depth) line.key line.value
  opened := r.opened.take line.depth ++ if line.value = none then [line.key] else []

/-- The lines that a dict is written in. -/
def lines : Nat → Outline κ ν → List (Line κ ν)
  | _, nil => []
  | depth, leaf key value rest => ⟨depth, key, some value⟩ :: lines depth rest
  | depth, node key body rest =>
      ⟨depth, key, none⟩ :: (lines (depth + 1) body ++ lines depth rest)

/-- The same dict with other values, where there are such for all of them. -/
def traverse {ν' : Type} (f : ν → Option ν') : Outline κ ν → Option (Outline κ ν')
  | nil => some nil
  | leaf key value rest => do return leaf key (← f value) (← rest.traverse f)
  | node key body rest => do return node key (← body.traverse f) (← rest.traverse f)

def Line.traverse {ν' : Type} (f : ν → Option ν') (line : Line κ ν) : Option (Line κ ν') :=
  match line.value with
  | none => some ⟨line.depth, line.key, none⟩
  | some value => (f value).map fun v => ⟨line.depth, line.key, some v⟩

/-- No dict has a key twice. -/
def Keyed : Outline κ ν → Prop
  | nil => True
  | leaf key _ rest => key ∉ rest.keys ∧ rest.Keyed
  | node key body rest => key ∉ rest.keys ∧ body.Keyed ∧ rest.Keyed

instance decidableKeyed [DecidableEq κ] : (o : Outline κ ν) → Decidable o.Keyed
  | nil => .isTrue trivial
  | leaf _ _ rest =>
      have := decidableKeyed rest
      inferInstanceAs (Decidable (_ ∧ _))
  | node _ body rest =>
      have := decidableKeyed body
      have := decidableKeyed rest
      inferInstanceAs (Decidable (_ ∧ _ ∧ _))

theorem append_nil (o : Outline κ ν) : o.append nil = o := by
  induction o with
  | nil => rfl
  | leaf key value rest ih => rw [append, ih]
  | node key body rest _ ih => rw [append, ih]

theorem append_assoc (o p q : Outline κ ν) : (o.append p).append q = o.append (p.append q) := by
  induction o with
  | nil => rfl
  | leaf key value rest ih => rw [append, append, append, ih]
  | node key body rest _ ih => rw [append, append, append, ih]

theorem keys_append (o p : Outline κ ν) : (o.append p).keys = o.keys ++ p.keys := by
  induction o with
  | nil => rfl
  | leaf key value rest ih => rw [append, keys, keys, ih, List.cons_append]
  | node key body rest _ ih => rw [append, keys, keys, ih, List.cons_append]

theorem keys_traverse {ν' : Type} {f : ν → Option ν'} {o : Outline κ ν} {o' : Outline κ ν'}
    (h : o.traverse f = some o') : o'.keys = o.keys := by
  induction o generalizing o' with
  | nil => cases h; rfl
  | leaf key value rest ih =>
      obtain ⟨v, -, h⟩ := Option.bind_eq_some_iff.mp h
      obtain ⟨rest', hrest, h⟩ := Option.bind_eq_some_iff.mp h
      cases h
      rw [keys, keys, ih hrest]
  | node key body rest _ ih =>
      obtain ⟨body', -, h⟩ := Option.bind_eq_some_iff.mp h
      obtain ⟨rest', hrest, h⟩ := Option.bind_eq_some_iff.mp h
      cases h
      rw [keys, keys, ih hrest]

theorem Keyed.traverse {ν' : Type} {f : ν → Option ν'} {o : Outline κ ν} {o' : Outline κ ν'}
    (ho : o.Keyed) (h : o.traverse f = some o') : o'.Keyed := by
  induction o generalizing o' with
  | nil => cases h; trivial
  | leaf key value rest ih =>
      obtain ⟨v, -, h⟩ := Option.bind_eq_some_iff.mp h
      obtain ⟨rest', hrest, h⟩ := Option.bind_eq_some_iff.mp h
      cases h
      exact ⟨by rw [keys_traverse hrest]; exact ho.1, ih ho.2 hrest⟩
  | node key body rest ihbody ih =>
      obtain ⟨body', hbody, h⟩ := Option.bind_eq_some_iff.mp h
      obtain ⟨rest', hrest, h⟩ := Option.bind_eq_some_iff.mp h
      cases h
      exact ⟨by rw [keys_traverse hrest]; exact ho.1, ihbody ho.2.1 hbody, ih ho.2.2 hrest⟩

theorem mapM_lines {ν' : Type} (f : ν → Option ν') (o : Outline κ ν) (depth : Nat) :
    (o.lines depth).mapM (Line.traverse f) = (o.traverse f).map (lines depth) := by
  induction o generalizing depth with
  | nil => rfl
  | leaf key value rest ih =>
      rw [lines, List.mapM_cons, ih, traverse, Line.traverse]
      dsimp only
      cases f value with
      | none => rfl
      | some v => cases rest.traverse f <;> rfl
  | node key body rest ihbody ih =>
      rw [lines, List.mapM_cons, List.mapM_append, ihbody, ih, traverse, Line.traverse]
      cases body.traverse f with
      | none => rfl
      | some body' => cases rest.traverse f <;> rfl

theorem traverse_eq_self_iff {f : ν → Option ν} (depth : Nat) {o : Outline κ ν} :
    o.traverse f = some o ↔
      ∀ line ∈ o.lines depth, ∀ value, line.value = some value → f value = some value := by
  induction o generalizing depth with
  | nil => simp [traverse, lines]
  | leaf key value rest ih =>
      rw [lines, List.forall_mem_cons, ← ih depth, traverse]
      cases hv : f value with
      | none => simp [hv]
      | some v =>
          cases hrest : rest.traverse f with
          | none => simp
          | some rest' => simp [hv]
  | node key body rest ihbody ih =>
      rw [lines, List.forall_mem_cons, List.forall_mem_append, ← ihbody (depth + 1), ← ih depth,
        traverse]
      cases hbody : body.traverse f with
      | none => simp
      | some body' =>
          cases hrest : rest.traverse f with
          | none => simp
          | some rest' => simp

/-- What surrounds an open dict: the entries before each of the dicts it is in, with
the key of the next one. -/
abbrev Context (κ ν : Type) := List (Outline κ ν × κ)

namespace Context

def path (ctx : Context κ ν) : List κ := ctx.map Prod.snd

def plug : Context κ ν → Outline κ ν → Outline κ ν
  | [], o => o
  | (before, key) :: ctx, o => before.append (node key (plug ctx o) nil)

def Fresh (ctx : Context κ ν) : Prop := ∀ c ∈ ctx, c.2 ∉ c.1.keys

theorem plug_concat (ctx : Context κ ν) (before : Outline κ ν) (key : κ) (o : Outline κ ν) :
    plug (ctx ++ [(before, key)]) o = plug ctx (before.append (node key o nil)) := by
  induction ctx with
  | nil => rfl
  | cons c ctx ih => rw [List.cons_append, plug, plug, ih]

end Context

section Reading

variable [DecidableEq κ]

theorem assign_fresh {key : κ} {o : Outline κ ν} (h : key ∉ o.keys) (value : Option ν) :
    o.assign key value = o.append (entry key value nil) := by
  induction o with
  | nil => rfl
  | leaf k v rest ih =>
      rw [keys, List.mem_cons, not_or] at h
      rw [assign, if_neg (Ne.symm h.1), ih h.2, append]
  | node k body rest _ ih =>
      rw [keys, List.mem_cons, not_or] at h
      rw [assign, if_neg (Ne.symm h.1), ih h.2, append]

/-- The entries before the one that a path leads into are passed over. -/
theorem assignAt_append {p : κ} {before : Outline κ ν} (h : p ∉ before.keys) (path : List κ)
    (key : κ) (value : Option ν) (o : Outline κ ν) :
    (before.append o).assignAt (p :: path) key value =
      before.append (o.assignAt (p :: path) key value) := by
  induction before with
  | nil => rfl
  | leaf k v rest ih =>
      rw [keys, List.mem_cons, not_or] at h
      rw [append, assignAt, ih h.2, append]
  | node k body rest _ ih =>
      rw [keys, List.mem_cons, not_or] at h
      rw [append, assignAt, if_neg (Ne.symm h.1), ih h.2, append]

theorem assignAt_plug {ctx : Context κ ν} (h : ctx.Fresh) (key : κ) (value : Option ν)
    (o : Outline κ ν) :
    (ctx.plug o).assignAt ctx.path key value = ctx.plug (o.assign key value) := by
  induction ctx with
  | nil =>
      rw [Context.path, List.map_nil, assignAt]
      rfl
  | cons c ctx ih =>
      obtain ⟨hc, hctx⟩ := List.forall_mem_cons.mp h
      rw [Context.plug, Context.path, List.map_cons, ← Context.path, assignAt_append hc, assignAt,
        if_pos rfl, ih hctx, Context.plug]

/-- A line at the depth of the open dict adds its entry to it. -/
theorem read_plug {ctx : Context κ ν} (h : ctx.Fresh) {r : Reading κ ν} {o : Outline κ ν}
    (hresult : r.result = ctx.plug o) (hopened : r.opened.take ctx.length = ctx.path) {key : κ}
    (hkey : key ∉ o.keys) (value : Option ν) : r.read ⟨ctx.length, key, value⟩ =
      ⟨ctx.plug (o.append (entry key value nil)),
        ctx.path ++ if value = none then [key] else []⟩ := by
  rw [Reading.read, hresult, hopened, assignAt_plug h, assign_fresh hkey]

/-- The lines of a dict, read into an open dict, add its entries to it. -/
theorem read_lines {o : Outline κ ν} (ho : o.Keyed) {ctx : Context κ ν} (h : ctx.Fresh)
    {before : Outline κ ν} (hbefore : ∀ key ∈ o.keys, key ∉ before.keys) {r : Reading κ ν}
    (hresult : r.result = ctx.plug before) (hopened : r.opened.take ctx.length = ctx.path) :
    ((lines ctx.length o).foldl Reading.read r).result = ctx.plug (before.append o) ∧
      ((lines ctx.length o).foldl Reading.read r).opened.take ctx.length = ctx.path := by
  have hpath : ctx.path.length = ctx.length := List.length_map _
  induction o generalizing ctx before r with
  | nil => exact ⟨by rw [append_nil]; exact hresult, hopened⟩
  | leaf key value rest ih =>
      obtain ⟨hkey, hrest⟩ := ho
      rw [lines, List.foldl_cons, read_plug h hresult hopened (hbefore key List.mem_cons_self)]
      have hnext := @ih hrest ctx h (before.append (leaf key value nil)) (fun k hk => by
        rw [keys_append, List.mem_append, not_or]
        refine ⟨hbefore k (List.mem_cons_of_mem _ hk), ?_⟩
        rintro (_ | ⟨_, ⟨⟩⟩)
        exact hkey hk) ⟨ctx.plug (before.append (leaf key value nil)), ctx.path⟩ rfl
        (by rw [← hpath, List.take_length]) hpath
      rw [append_assoc] at hnext
      simpa [entry, append] using hnext
  | node key body rest ihbody ihrest =>
      obtain ⟨hkey, hbody, hrest⟩ := ho
      have hfresh : Context.Fresh (ctx ++ [(before, key)]) := by
        intro c hc
        rcases List.mem_append.mp hc with hc | hc
        · exact h c hc
        · obtain rfl := List.mem_singleton.mp hc
          exact hbefore key List.mem_cons_self
      have hlength : (ctx ++ [(before, key)]).length = ctx.length + 1 := by simp
      have hpath' : Context.path (ctx ++ [(before, key)]) = ctx.path ++ [key] := by
        simp [Context.path]
      rw [lines, List.foldl_cons, read_plug h hresult hopened (hbefore key List.mem_cons_self),
        List.foldl_append, entry]
      obtain ⟨hin, hout⟩ := @ihbody hbody (ctx ++ [(before, key)]) hfresh nil
        (fun _ _ => List.not_mem_nil)
        ⟨ctx.plug (before.append (node key nil nil)), ctx.path ++ [key]⟩
        (by rw [Context.plug_concat])
        (by rw [hpath', hlength, List.take_of_length_le (by simp [hpath])])
        (by rw [hpath', hlength, List.length_append, hpath]; rfl)
      rw [hlength, Context.plug_concat] at hin
      rw [hlength, hpath'] at hout
      rw [if_pos rfl]
      generalize (lines (ctx.length + 1) body).foldl Reading.read _ = r' at hin hout ⊢
      have hopened' : r'.opened.take ctx.length = ctx.path := by
        have htake := congrArg (List.take ctx.length) hout
        rw [List.take_take, Nat.min_eq_left (Nat.le_succ _)] at htake
        rw [htake, ← hpath, List.take_left]
      have hnext := @ihrest hrest ctx h (before.append (node key body nil)) (fun k hk => by
        rw [keys_append, List.mem_append, not_or]
        refine ⟨hbefore k (List.mem_cons_of_mem _ hk), ?_⟩
        rintro (_ | ⟨_, ⟨⟩⟩)
        exact hkey hk) r' hin hopened' hpath
      rw [append_assoc] at hnext
      exact hnext

/-- A dict without a repeated key is what its lines are read as. -/
theorem read_lines_eq {o : Outline κ ν} (ho : o.Keyed) :
    ((lines 0 o).foldl Reading.read {}).result = o :=
  (@read_lines _ _ _ o ho [] (fun _ hc => absurd hc List.not_mem_nil) nil
    (fun _ _ => List.not_mem_nil) {} rfl rfl).1

end Reading

end Outline

end Prodinamik.Lib
