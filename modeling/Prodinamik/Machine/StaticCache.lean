import Prodinamik.Lib.LruCache
import Prodinamik.Lib.Run
import Prodinamik.Lib.Text
import Prodinamik.Machine.StateMachine

namespace Prodinamik.Machine

open Lib Lib.Run Lib.Text

/-- can_transition without a runtime on an empty cache. -/
def StateMachine.checkStatic (sm : StateMachine) (fromState toState : String) :
    Except String Unit :=
  match sm.config.state fromState with
  | none => .error ("Source state '" ++ fromState ++ "' not found")
  | some source =>
    match sm.config.state toState with
    | none => .error ("Target state '" ++ toState ++ "' not found")
    | some _ =>
      if source.stateType = .terminal then
        .error ("Cannot transition from terminal state '" ++ fromState ++ "'")
      else
        match (sm.config.outgoing fromState).find? fun t => t.toState = toState with
        | none => .error ("No transition from '" ++ fromState ++ "' to '" ++ toState ++ "'")
        | some t =>
          if t.requiresHuman then .error "Transition requires human approval" else .ok ()

/-- What a call returns and what is cached; a list is an object that callers share. -/
inductive Reply
  | list (ref : Nat)
  | verdict (allowed : Bool) (reason : String)
  deriving DecidableEq, Repr

/-- A reply with what is in its list. -/
inductive Answer
  | states (names : List String)
  | verdict (allowed : Bool) (reason : String)
  deriving DecidableEq, Repr

inductive Query
  | nextStates (current : String)
  | canTransition (fromState toState : String)
  deriving DecidableEq, Repr

/-- What the config says of a query. -/
def StateMachine.answer (sm : StateMachine) : Query → Answer
  | .nextStates current => .states (sm.nextStates current)
  | .canTransition fromState toState =>
    match sm.checkStatic fromState toState with
    | .error reason => .verdict false reason
    | .ok () => .verdict true "Transition allowed"

/-- The cache_key of the two functions. -/
def Query.key : Query → String
  | .nextStates current => "next:" ++ current
  | .canTransition fromState toState => fromState ++ "→" ++ toState

/-- The _transition_cache with the lists that were made, in their order. -/
structure StaticCache where
  cache : LruCache String Reply := Table.empty
  lists : List (List String) := []

namespace StaticCache

def read (s : StaticCache) : Reply → Answer
  | .list ref => .states ((s.lists[ref]?).getD [])
  | .verdict allowed reason => .verdict allowed reason

section

variable (sm : StateMachine) (lruSize : Int)

def getNextStates (s : StaticCache) (current : String) : Reply × StaticCache :=
  let key := (Query.nextStates current).key
  match s.cache.find key with
  | some reply => (reply, { s with cache := s.cache.moveToEnd key })
  | none =>
      (.list s.lists.length,
        { cache := s.cache.store lruSize key (.list s.lists.length)
          lists := s.lists ++ [sm.nextStates current] })

def canTransition (s : StaticCache) (fromState toState : String) : Reply × StaticCache :=
  let key := (Query.canTransition fromState toState).key
  match s.cache.find key with
  | some reply => (reply, { s with cache := s.cache.moveToEnd key })
  | none =>
    match sm.checkStatic fromState toState with
    | .error reason => (.verdict false reason, s)
    | .ok () =>
        let reply := Reply.verdict true "Transition allowed"
        (reply, { s with cache := s.cache.store lruSize key reply })

def ask (s : StaticCache) : Query → Reply × StaticCache
  | .nextStates current => s.getNextStates sm lruSize current
  | .canTransition fromState toState => s.canTransition sm lruSize fromState toState

/-- What a call returns, as its caller finds it. -/
def answer (s : StaticCache) (q : Query) : Answer := (s.ask sm lruSize q).2.read (s.ask sm lruSize q).1

end

end StaticCache

/-- A call, or a caller who changes a list that it was given. -/
inductive CacheStep
  | ask (q : Query)
  | change (ref : Nat) (names : List String)

/-- The machine with the last call that found nothing under a key and with each
list as it was made. -/
structure CacheRun where
  machine : StaticCache := {}
  missed : String → Option Query := fun _ => none
  made : List (List String) := []

namespace CacheRun

variable (sm : StateMachine) (lruSize : Int)

def step (s : CacheRun) : CacheStep → CacheRun
  | .ask q =>
      { machine := (s.machine.ask sm lruSize q).2
        missed :=
          if s.machine.cache.find q.key = none then Function.update s.missed q.key (some q)
          else s.missed
        made := s.made ++ (s.machine.ask sm lruSize q).2.lists.drop s.machine.lists.length }
  | .change ref names => { s with machine.lists := s.machine.lists.set ref names }

/-- A call returns what it would return on a machine that was just built. -/
def Transparent (s : CacheRun) : CacheStep → Prop
  | .ask q => s.machine.answer sm lruSize q = ({} : StaticCache).answer sm lruSize q
  | .change .. => True

/-- What is cached under the key of a call comes from a call with the same answer,
and its list has been left as it was made. -/
def Unmixed (s : CacheRun) : CacheStep → Prop
  | .ask q =>
      ∀ reply ∈ s.machine.cache.find q.key,
        (∃ q' ∈ s.missed q.key, sm.answer q' = sm.answer q) ∧
        ∀ ref, reply = .list ref → s.machine.lists[ref]? = s.made[ref]?
  | .change .. => True

end CacheRun

variable {sm : StateMachine} {lruSize : Int}

namespace StaticCache

variable {s : StaticCache} {q : Query} {reply : Reply}

theorem ask_of_hit (h : s.cache.find q.key = some reply) :
    s.ask sm lruSize q = (reply, { s with cache := s.cache.moveToEnd q.key }) := by
  cases q with
  | nextStates current => simp only [ask, getNextStates, h]
  | canTransition fromState toState => simp only [ask, canTransition, h]

/-- A call that finds nothing makes a list exactly if it returns one. -/
theorem lists_of_miss (h : s.cache.find q.key = none) :
    (s.ask sm lruSize q).2.lists = s.lists ++
      match q with
      | .nextStates current => [sm.nextStates current]
      | .canTransition .. => [] := by
  cases q with
  | nextStates current => simp only [ask, getNextStates, h]
  | canTransition fromState toState =>
      simp only [ask, canTransition, h, List.append_nil]
      split <;> rfl

/-- It stores nothing but its reply. -/
theorem mem_of_miss (h : s.cache.find q.key = none) {e : String × Reply}
    (he : e ∈ (s.ask sm lruSize q).2.cache.rows) :
    e = (q.key, (s.ask sm lruSize q).1) ∨ e ∈ s.cache.rows ∧ e.1 ≠ q.key := by
  have hother : ∀ e ∈ s.cache.rows, e.1 ≠ q.key := by
    rintro ⟨k, r⟩ hmem rfl
    rw [LruCache.find_eq_some.mpr hmem] at h
    cases h
  cases q with
  | nextStates current =>
      simp only [ask, getNextStates, h] at he ⊢
      exact LruCache.mem_store he
  | canTransition fromState toState =>
      simp only [ask, canTransition, h] at he ⊢
      cases hcheck : sm.checkStatic fromState toState with
      | error reason =>
          rw [hcheck] at he
          exact .inr ⟨he, hother e he⟩
      | ok u =>
          rw [hcheck] at he
          exact LruCache.mem_store he

/-- Its reply is the answer to it, whatever has become of the lists that were made before. -/
theorem read_of_miss (sm : StateMachine) (lruSize : Int) (h : s.cache.find q.key = none) {made : List (List String)}
    (hlength : made.length = s.lists.length) :
    ({ lists := made ++ (s.ask sm lruSize q).2.lists.drop s.lists.length } : StaticCache).read
      (s.ask sm lruSize q).1 = sm.answer q := by
  rw [lists_of_miss h, List.drop_left]
  cases q with
  | nextStates current =>
      simp only [ask, getNextStates, h, read, StateMachine.answer, ← hlength,
        List.getElem?_concat_length, Option.getD_some]
  | canTransition fromState toState =>
      simp only [ask, canTransition, h, StateMachine.answer]
      split <;> rfl

theorem answer_of_miss (h : s.cache.find q.key = none) :
    s.answer sm lruSize q = sm.answer q := by
  have hread := read_of_miss sm lruSize h (Eq.refl s.lists.length)
  rw [lists_of_miss h, List.drop_left, ← lists_of_miss h] at hread
  exact hread

/-- A machine that was just built says what its config does. -/
theorem answer_fresh (sm : StateMachine) (lruSize : Int) (q : Query) :
    ({} : StaticCache).answer sm lruSize q = sm.answer q :=
  answer_of_miss rfl

/-- A call keeps the cache within its size. -/
theorem length_ask (h : (s.cache.rows.length : Int) ≤ max lruSize 0) (q : Query) :
    ((s.ask sm lruSize q).2.cache.rows.length : Int) ≤ max lruSize 0 := by
  cases hfind : s.cache.find q.key with
  | some reply =>
      rw [ask_of_hit hfind, LruCache.length_moveToEnd]
      exact h
  | none =>
      cases q with
      | nextStates current =>
          simp only [ask, getNextStates, hfind]
          exact LruCache.length_store h hfind
      | canTransition fromState toState =>
          simp only [ask, canTransition, hfind]
          split
          · exact h
          · exact LruCache.length_store h hfind

theorem ref_of_miss (h : s.cache.find q.key = none) {ref : Nat}
    (hreply : (s.ask sm lruSize q).1 = .list ref) :
    ref < (s.ask sm lruSize q).2.lists.length := by
  cases q with
  | nextStates current =>
      simp only [ask, getNextStates, h] at hreply ⊢
      cases hreply
      simp
  | canTransition fromState toState =>
      simp only [ask, canTransition, h] at hreply
      split at hreply
      case h_1 => cases hreply
      case h_2 => cases hreply

end StaticCache

namespace CacheRun

/-- Each entry comes from a call with its key that found nothing, and read in the
lists as they were made it is the answer to that call. -/
structure Accounted (sm : StateMachine) (s : CacheRun) : Prop where
  length : s.made.length = s.machine.lists.length
  cached : ∀ e ∈ s.machine.cache.rows, ∃ q, s.missed e.1 = some q ∧ q.key = e.1 ∧
    ({ lists := s.made } : StaticCache).read e.2 = sm.answer q
  ref : ∀ e ∈ s.machine.cache.rows, ∀ ref, e.2 = .list ref → ref < s.made.length

theorem accounted_init (sm : StateMachine) : Accounted sm {} where
  length := rfl
  cached := fun _ he => absurd he List.not_mem_nil
  ref := fun _ he => absurd he List.not_mem_nil

/-- Lists that are made later do not change what a reply reads as. -/
theorem read_append {made more : List (List String)} {reply : Reply}
    (href : ∀ ref, reply = .list ref → ref < made.length) :
    ({ lists := made ++ more } : StaticCache).read reply =
      ({ lists := made } : StaticCache).read reply := by
  cases reply with
  | verdict allowed reason => rfl
  | list ref =>
      rw [StaticCache.read, StaticCache.read, List.getElem?_append_left (href ref rfl)]

variable {s : CacheRun} {q : Query}

theorem step_of_hit {reply : Reply} (hhit : s.machine.cache.find q.key = some reply) :
    step sm lruSize s (.ask q) =
      { s with machine.cache := s.machine.cache.moveToEnd q.key } := by
  rw [step, StaticCache.ask_of_hit hhit, hhit, if_neg (by simp), List.drop_length,
    List.append_nil]

theorem Accounted.ask_miss (h : Accounted sm s) (hmiss : s.machine.cache.find q.key = none) :
    Accounted sm (step sm lruSize s (.ask q)) := by
  have hlength : (step sm lruSize s (.ask q)).made.length =
      (step sm lruSize s (.ask q)).machine.lists.length := by
    rw [step, StaticCache.lists_of_miss hmiss, List.drop_left, List.length_append,
      List.length_append, h.length]
  have hmissed : (step sm lruSize s (.ask q)).missed =
      Function.update s.missed q.key (some q) :=
    if_pos hmiss
  refine ⟨hlength, fun e he => ?_, fun e he ref hreply => ?_⟩
  · rw [hmissed]
    obtain rfl | ⟨hold, hne⟩ := StaticCache.mem_of_miss hmiss he
    · exact ⟨q, Function.update_self .., rfl, StaticCache.read_of_miss sm lruSize hmiss h.length⟩
    · obtain ⟨q', hq', hkey, hread⟩ := h.cached e hold
      refine ⟨q', (Function.update_of_ne hne ..).trans hq', hkey, ?_⟩
      exact (read_append (h.ref e hold)).trans hread
  · obtain rfl | ⟨hold, -⟩ := StaticCache.mem_of_miss hmiss he
    · rw [hlength]
      exact StaticCache.ref_of_miss hmiss hreply
    · exact (h.ref e hold ref hreply).trans_le (List.length_append ▸ Nat.le_add_right ..)

theorem accounted_step (h : Accounted sm s) (a : CacheStep) :
    Accounted sm (step sm lruSize s a) := by
  cases a with
  | change ref names =>
      refine ⟨?_, h.cached, h.ref⟩
      rw [step, List.length_set]
      exact h.length
  | ask q =>
      cases hfind : s.machine.cache.find q.key with
      | none => exact h.ask_miss hfind
      | some reply =>
          rw [step_of_hit hfind]
          refine ⟨h.length, fun e he => ?_, fun e he => ?_⟩
          · exact h.cached e (LruCache.mem_moveToEnd.mp he)
          · exact h.ref e (LruCache.mem_moveToEnd.mp he)

/-- Only a call for the next states is answered with a list. -/
theorem nextStates_of_answer {q : Query} {names : List String} (h : sm.answer q = .states names) :
    ∃ current, q = .nextStates current := by
  cases q with
  | nextStates current => exact ⟨current, rfl⟩
  | canTransition fromState toState =>
      rw [StateMachine.answer] at h
      split at h <;> cases h

theorem key_nextStates_inj {a b : String}
    (h : (Query.nextStates a).key = (Query.nextStates b).key) : a = b := by
  simpa [Query.key] using h

/-- An entry reads as the answer to a call exactly if it was the answer to the call that it
comes from and that call has the same one. -/
theorem read_eq_iff {lists made : List (List String)} {q q' : Query} {reply : Reply}
    (hkey : q'.key = q.key)
    (hmade : ({ lists := made } : StaticCache).read reply = sm.answer q')
    (href : ∀ ref, reply = .list ref → ref < made.length) (hlength : made.length = lists.length) :
    ({ lists := lists } : StaticCache).read reply = sm.answer q ↔
      sm.answer q' = sm.answer q ∧ ∀ ref, reply = .list ref → lists[ref]? = made[ref]? := by
  cases reply with
  | verdict allowed reason =>
      rw [← hmade]
      exact ⟨fun h => ⟨h, fun ref hreply => by cases hreply⟩, And.left⟩
  | list ref =>
      have hbound := href ref rfl
      obtain ⟨current', rfl⟩ := nextStates_of_answer hmade.symm
      constructor
      · intro hread
        obtain ⟨current, rfl⟩ := nextStates_of_answer hread.symm
        obtain rfl := key_nextStates_inj hkey
        refine ⟨rfl, ?_⟩
        rintro _ ⟨⟩
        have hnames := hread.trans hmade.symm
        simp only [StaticCache.read, Answer.states.injEq,
          List.getElem?_eq_getElem hbound, List.getElem?_eq_getElem (hlength ▸ hbound),
          Option.getD_some] at hnames ⊢
        rw [hnames]
      · rintro ⟨hsame, hleft⟩
        rw [← hsame, ← hmade, StaticCache.read, StaticCache.read, hleft ref rfl]

/-- In an accounted state a call is right exactly if its entry is of its own kind. -/
theorem transparent_iff_unmixed (h : Accounted sm s) (a : CacheStep) :
    Transparent sm lruSize s a ↔ Unmixed sm s a := by
  cases a with
  | change ref names => exact Iff.rfl
  | ask q =>
      rw [Transparent, Unmixed, StaticCache.answer_fresh]
      cases hfind : s.machine.cache.find q.key with
      | none =>
          exact iff_of_true (StaticCache.answer_of_miss hfind)
            fun reply hreply => absurd hreply (Option.not_mem_none reply)
      | some reply =>
          have hmem := LruCache.find_eq_some.mp hfind
          obtain ⟨q', hmissed, hkey, hmade⟩ := h.cached _ hmem
          have hread := read_eq_iff hkey hmade (h.ref _ hmem) h.length
          rw [StaticCache.answer, StaticCache.ask_of_hit hfind]
          refine Iff.trans hread ⟨?_, ?_⟩
          · rintro ⟨hsame, hleft⟩ _ ⟨⟩
            exact ⟨⟨q', hmissed, hsame⟩, hleft⟩
          · intro hentry
            obtain ⟨⟨q₁, hq₁, hsame⟩, hleft⟩ := hentry reply rfl
            obtain rfl : q' = q₁ := Option.some.inj (hmissed.symm.trans hq₁)
            exact ⟨hsame, hleft⟩

/-- Along any calls and changes the cache cannot be told from an empty one exactly if at
each call what is cached under its key comes from a call with the same answer and is
left as it was made. -/
theorem transparent_iff (sm : StateMachine) (lruSize : Int) (acts : List CacheStep) :
    Steps (step sm lruSize) (Transparent sm lruSize) {} acts ↔
      Steps (step sm lruSize) (Unmixed sm) {} acts :=
  along_iff_steps (Accounted sm) (fun _ a h => accounted_step h a)
    (fun _ a h _ => Iff.trans (iff_of_eq (true_and _)) (transparent_iff_unmixed h a)) (accounted_init sm)
    trivial acts

/-- The cache keeps no more than its size. -/
theorem length_cache (sm : StateMachine) (lruSize : Int) (acts : List CacheStep) :
    ((acts.foldl (step sm lruSize) {}).machine.cache.rows.length : Int) ≤ max lruSize 0 := by
  have hstep : ∀ (s : CacheRun) (a : CacheStep),
      (s.machine.cache.rows.length : Int) ≤ max lruSize 0 →
      ((step sm lruSize s a).machine.cache.rows.length : Int) ≤ max lruSize 0 := by
    intro s a h
    cases a with
    | ask q => exact StaticCache.length_ask h q
    | change ref names => exact h
  have hrun : ∀ s : CacheRun, (s.machine.cache.rows.length : Int) ≤ max lruSize 0 →
      ((acts.foldl (step sm lruSize) s).machine.cache.rows.length : Int) ≤ max lruSize 0 := by
    induction acts with
    | nil => exact fun s h => h
    | cons a acts ih => exact fun s h => ih _ (hstep s a h)
  exact hrun {} (le_max_right _ _)

/-- A call that is about no state whose name has an arrow in it or begins like the
other keys; the callers leave their lists as they are. -/
def Plain : CacheStep → Prop
  | .ask (.nextStates _) => True
  | .ask (.canTransition fromState _) =>
      '→' ∉ fromState.toList ∧ ¬ "next:".toList <+: fromState.toList
  | .change .. => False

theorem key_ne_of_plain {current fromState toState : String}
    (h : Plain (.ask (.canTransition fromState toState))) :
    (Query.nextStates current).key ≠ (Query.canTransition fromState toState).key := by
  intro hkey
  have hlist := congrArg String.toList hkey
  simp only [Query.key, String.toList_append, List.append_assoc] at hlist
  obtain ⟨rest, hfrom, -⟩ | ⟨rest, hnext, harrow⟩ := List.append_eq_append_iff.mp hlist
  · exact h.2 ⟨rest, hfrom.symm⟩
  · cases rest with
    | nil => exact h.2 ⟨[], by rw [hnext, List.append_nil, List.append_nil]⟩
    | cons c rest =>
        obtain rfl : '→' = c := (List.cons.inj harrow).1
        have hmem : '→' ∈ "next:".toList := by
          rw [hnext]
          exact List.mem_append_right _ List.mem_cons_self
        exact absurd hmem (by decide +kernel)

theorem key_inj_of_plain {q q' : Query} (hq : Plain (.ask q)) (hq' : Plain (.ask q'))
    (h : q.key = q'.key) : q = q' := by
  cases q with
  | nextStates current =>
      cases q' with
      | nextStates current' => rw [key_nextStates_inj h]
      | canTransition a b => exact absurd h (key_ne_of_plain hq')
  | canTransition a b =>
      cases q' with
      | nextStates current' => exact absurd h.symm (key_ne_of_plain hq)
      | canTransition a' b' =>
          have hlist := congrArg String.toList h
          simp only [Query.key, String.toList_append, List.append_assoc] at hlist
          have hcut := congrArg (partition '→') hlist
          rw [show "→".toList = ['→'] from rfl, List.singleton_append, List.singleton_append,
            partition_append hq.1, partition_append hq'.1] at hcut
          rw [String.toList_injective (congrArg Prod.fst hcut),
            String.toList_injective (congrArg Prod.snd hcut)]

/-- Plain calls leave only their own entries and no list is changed. -/
structure Separate (s : CacheRun) : Prop where
  missed : ∀ k, ∀ q ∈ s.missed k, Plain (.ask q)
  lists : s.machine.lists = s.made

theorem separate_step {s : CacheRun} (h : Separate s) {a : CacheStep} (ha : Plain a) :
    Separate (step sm lruSize s a) := by
  cases a with
  | change ref names => exact absurd ha id
  | ask q =>
      cases hfind : s.machine.cache.find q.key with
      | some reply =>
          rw [step_of_hit hfind]
          exact ⟨h.missed, h.lists⟩
      | none =>
          rw [step, if_pos hfind]
          refine ⟨fun k q' hq' => ?_, ?_⟩
          · change q' ∈ Function.update s.missed q.key (some q) k at hq'
            by_cases hk : k = q.key
            · subst hk
              rw [Function.update_self] at hq'
              obtain rfl := Option.some.inj hq'
              exact ha
            · rw [Function.update_of_ne hk] at hq'
              exact h.missed k q' hq'
          · rw [StaticCache.lists_of_miss hfind, List.drop_left, h.lists]

theorem unmixed_of_plain {s : CacheRun} (hs : Accounted sm s) (h : Separate s) {a : CacheStep}
    (ha : Plain a) : Unmixed sm s a := by
  cases a with
  | change ref names => trivial
  | ask q =>
      intro reply hreply
      obtain ⟨q', hmissed, hkey, -⟩ := hs.cached _ (LruCache.find_eq_some.mp hreply)
      obtain rfl := key_inj_of_plain (h.missed _ q' hmissed) ha hkey
      exact ⟨⟨q', hmissed, rfl⟩, fun ref _ => by rw [h.lists]⟩

/-- The cache cannot be told from an empty one by plain calls. -/
theorem transparent_of_plain (sm : StateMachine) (lruSize : Int) {acts : List CacheStep}
    (hplain : ∀ a ∈ acts, Plain a) :
    Steps (step sm lruSize) (Transparent sm lruSize) {} acts := by
  have hrun : ∀ s : CacheRun, Accounted sm s → Separate s →
      Steps (step sm lruSize) (Transparent sm lruSize) s acts := by
    induction acts with
    | nil => exact fun _ _ _ => trivial
    | cons a acts ih =>
        intro s hs h
        have ha := hplain a List.mem_cons_self
        exact ⟨trivial, (transparent_iff_unmixed hs a).mpr (unmixed_of_plain hs h ha),
          ih (fun b hb => hplain b (List.mem_cons_of_mem _ hb)) _ (accounted_step hs a)
            (separate_step h ha)⟩
  exact hrun {} (accounted_init sm) ⟨fun _ _ hq => absurd hq (Option.not_mem_none _), rfl⟩

end CacheRun

/-- A text is checked before it is printed. -/
def editing : StateMachine where
  config :=
    { states :=
        [("text", .once "text" .initial), ("check", .once "check" .intermediate),
          ("print", .once "print" .terminal)]
      transitions :=
        [{ fromState := "text", toState := "check" },
          { fromState := "check", toState := "print" }]
      nodup := by decide }
  accepted := by decide

/-- A caller takes the one next state out of the list that it was given. -/
theorem CacheRun.not_transparent : ¬ Steps (step editing 128) (Transparent editing 128) {}
    [.ask (.nextStates "text"), .change 0 [], .ask (.nextStates "text")] := by
  intro h
  have hagain := h.2.2.2.2.2.1
  revert hagain
  rw [Transparent]
  decide +kernel

end Prodinamik.Machine
