import Mathlib.Algebra.Order.Ring.Rat
import Mathlib.Data.List.Sort
import Mathlib.Data.Prod.Lex
import Prodinamik.Agents.ContextWindow
import Prodinamik.Lib.Run

namespace Prodinamik.Agents

open Lib Lib.Run

structure ContextEntry where
  role : String
  content : List Char
  priority : Int := 0
  tokens : Int := 0
  stepNumber : Int := 0
  isSummary : Bool := false
  deriving DecidableEq

structure AddEntry where
  role : String
  content : List Char
  priority : Int := 0
  stepNumber : Int := 0
  isSummary : Bool := false
  deriving DecidableEq

structure ContextManager where
  entries : List ContextEntry := []
  totalTokens : Int := 0
  deriving DecidableEq

def AddEntry.entry (a : AddEntry) : ContextEntry where
  role := a.role
  content := a.content
  priority := a.priority
  tokens := ContextConfig.estimateTokens (.text a.content : Content Json.Floats.single.Num)
  stepNumber := a.stepNumber
  isSummary := a.isSummary

/-- The order in which entries are given up. -/
def ContextEntry.Before (e e' : ContextEntry) : Prop :=
  toLex (e.priority, e.stepNumber) ≤ toLex (e'.priority, e'.stepNumber)

instance : DecidableRel ContextEntry.Before := fun e e' =>
  inferInstanceAs (Decidable (toLex (e.priority, e.stepNumber) ≤ toLex (e'.priority, e'.stepNumber)))

namespace ContextManager

/-- The victims go one after the other, while the budget is exceeded. -/
def dropWhileOver (budget : Int) : List ContextEntry → ContextManager → ContextManager
  | [], s => s
  | victim :: victims, s =>
      if budget < s.totalTokens then
        dropWhileOver budget victims
          (if victim ∈ s.entries then
            { entries := s.entries.erase victim, totalTokens := s.totalTokens - victim.tokens }
          else s)
      else s

variable (config : ContextConfig)

def truncate (s : ContextManager) : ContextManager :=
  let priorityEntries := (s.entries.filter fun e => !e.isSummary).insertionSort ContextEntry.Before
  let summaryEntries := s.entries.filter fun e => e.isSummary
  dropWhileOver config.available summaryEntries
    (dropWhileOver config.available priorityEntries s)

/-- The entry is there before anything is given up. -/
def append (s : ContextManager) (e : ContextEntry) : ContextManager :=
  { entries := s.entries ++ [e], totalTokens := s.totalTokens + e.tokens }

def addEntry (s : ContextManager) (a : AddEntry) : ContextManager :=
  let s := s.append a.entry
  if config.maxTokens * config.truncateThreshold < (s.totalTokens : Rat) then s.truncate config else s

def tokenBudget (s : ContextManager) : Int :=
  config.maxTokens - config.reserveTokens - s.totalTokens

def sum (entries : List ContextEntry) : Int := entries.foldl (fun total e => total + e.tokens) 0

/-- The counter is right, and there is a budget left. -/
structure Sound (s : ContextManager) : Prop where
  total : s.totalTokens = sum s.entries
  budget : 0 ≤ s.tokenBudget config

/-- An entry goes only if no entry of less priority stays, and a summary only if none but summaries
stays. -/
def Fair (s : ContextManager) (a : AddEntry) : Prop :=
  ∀ d, (s.addEntry config a).entries.count d < (s.append a.entry).entries.count d →
    ∀ e ∈ (s.addEntry config a).entries, e.isSummary = false →
      d.priority ≤ e.priority ∧ d.isSummary = false

/-- The new total is not between what the reserve leaves and where truncation starts. -/
def Clear (s : ContextManager) (a : AddEntry) : Prop :=
  config.available < s.totalTokens + a.entry.tokens →
    config.maxTokens * config.truncateThreshold < ((s.totalTokens + a.entry.tokens : Int) : Rat)

variable {config} {s : ContextManager} {budget : Int} {victims : List ContextEntry}
  {e : ContextEntry} {a : AddEntry}

theorem foldl_sum (start : Int) (entries : List ContextEntry) :
    entries.foldl (fun total e => total + e.tokens) start = start + sum entries := by
  induction entries generalizing start with
  | nil => exact (Int.add_zero start).symm
  | cons e rest ih => rw [sum, List.foldl_cons, List.foldl_cons, ih, ih, Int.zero_add, Int.add_assoc]

theorem sum_cons (e : ContextEntry) (rest : List ContextEntry) :
    sum (e :: rest) = e.tokens + sum rest := by
  rw [sum, List.foldl_cons, foldl_sum, Int.zero_add]

theorem sum_perm {entries entries' : List ContextEntry} (h : entries.Perm entries') :
    sum entries = sum entries' := by
  induction h with
  | nil => rfl
  | cons e _ ih => rw [sum_cons, sum_cons, ih]
  | swap e e' rest => rw [sum_cons, sum_cons, sum_cons, sum_cons, Int.add_left_comm]
  | trans _ _ ih ih' => exact ih.trans ih'

theorem sum_append (e : ContextEntry) (entries : List ContextEntry) :
    sum (entries ++ [e]) = sum entries + e.tokens := by
  rw [sum, List.foldl_append]
  rfl

theorem dropWhileOver_of_le (h : s.totalTokens ≤ budget) : dropWhileOver budget victims s = s := by
  cases victims with
  | nil => rfl
  | cons victim victims => rw [dropWhileOver, if_neg (Int.not_lt.mpr h)]

theorem dropWhileOver_append (victims' : List ContextEntry) :
    dropWhileOver budget (victims ++ victims') s =
      dropWhileOver budget victims' (dropWhileOver budget victims s) := by
  induction victims generalizing s with
  | nil => rfl
  | cons victim victims ih =>
      rw [List.cons_append, dropWhileOver, dropWhileOver]
      by_cases hover : budget < s.totalTokens
      · rw [if_pos hover, if_pos hover, ih]
      · rw [if_neg hover, if_neg hover, dropWhileOver_of_le (Int.not_lt.mp hover)]

/-- The victims that go are the first ones, as many as it takes. -/
theorem dropWhileOver_spec (hperm : s.entries.Perm victims) (htotal : s.totalTokens = sum s.entries) :
    ∃ k, (dropWhileOver budget victims s).entries.Perm (victims.drop k) ∧
      (dropWhileOver budget victims s).totalTokens =
        sum (dropWhileOver budget victims s).entries ∧
      ((dropWhileOver budget victims s).totalTokens ≤ budget ∨
        (dropWhileOver budget victims s).entries = []) := by
  induction victims generalizing s with
  | nil => exact ⟨0, hperm, htotal, .inr hperm.eq_nil⟩
  | cons victim victims ih =>
      rw [dropWhileOver]
      by_cases hover : budget < s.totalTokens
      · have hmem : victim ∈ s.entries := hperm.mem_iff.mpr List.mem_cons_self
        have hrest := List.perm_cons_erase hmem
        have htotal' : s.totalTokens - victim.tokens = sum (s.entries.erase victim) := by
          rw [htotal, sum_perm hrest, sum_cons]
          omega
        obtain ⟨k, hk⟩ := ih (s := ⟨s.entries.erase victim, s.totalTokens - victim.tokens⟩)
          (hrest.symm.trans hperm).cons_inv htotal'
        rw [if_pos hover, if_pos hmem]
        exact ⟨k + 1, hk⟩
      · rw [if_neg hover]
        exact ⟨0, hperm, htotal, .inl (Int.not_lt.mp hover)⟩

/-- All entries, in the order in which they are given up. -/
def queue (s : ContextManager) : List ContextEntry :=
  (s.entries.filter fun e => !e.isSummary).insertionSort ContextEntry.Before ++
    s.entries.filter fun e => e.isSummary

theorem truncate_eq : s.truncate config = dropWhileOver config.available s.queue s :=
  (dropWhileOver_append _).symm

theorem perm_queue : s.entries.Perm s.queue := by
  have hsplit := (List.filter_append_perm (fun e : ContextEntry => !e.isSummary) s.entries).symm
  simp only [Bool.not_not] at hsplit
  exact hsplit.trans ((List.perm_insertionSort _ _).symm.append_right _)

/-- Of two entries the one that is given up first has no greater priority and is no summary, if the
other is none. -/
theorem pairwise_queue : s.queue.Pairwise fun d e =>
    e.isSummary = false → d.priority ≤ e.priority ∧ d.isSummary = false := by
  have htotal : Std.Total ContextEntry.Before := ⟨fun e e' => le_total _ _⟩
  have htrans : IsTrans ContextEntry ContextEntry.Before := ⟨fun _ _ _ h h' => le_trans h h'⟩
  refine List.pairwise_append.mpr ⟨?_, ?_, ?_⟩
  · refine (List.pairwise_insertionSort ContextEntry.Before _).imp_of_mem fun hd _ hbefore _ => ?_
    have hpriority := Prod.Lex.monotone_fst _ _ hbefore
    have hmem := List.mem_filter.mp ((List.mem_insertionSort _).mp hd)
    exact ⟨hpriority, by simpa using hmem.2⟩
  · refine List.pairwise_of_forall_mem_list fun d _ e he hsummary => ?_
    rw [(List.mem_filter.mp he).2] at hsummary
    cases hsummary
  · intro d _ e he hsummary
    rw [(List.mem_filter.mp he).2] at hsummary
    cases hsummary

/-- What stays and what goes are apart in the order in which entries are given up. -/
theorem fair_of_drop {k : Nat} {after : List ContextEntry} (h : after.Perm (s.queue.drop k))
    {d e : ContextEntry} (hd : after.count d < s.entries.count d) (he : e ∈ after)
    (hsummary : e.isSummary = false) : d.priority ≤ e.priority ∧ d.isSummary = false := by
  have hpairwise := @pairwise_queue s
  rw [← List.take_append_drop k s.queue] at hpairwise
  have hgone : d ∈ s.queue.take k := by
    rw [h.count_eq, perm_queue.count_eq, ← List.take_append_drop k s.queue, List.count_append,
      List.take_append_drop] at hd
    exact List.count_pos_iff.mp (by omega)
  exact (List.pairwise_append.mp hpairwise).2.2 d hgone e (h.mem_iff.mp he) hsummary

/-- Truncation ends within the budget, as nothing at all is within it. -/
theorem truncate_spec (havailable : 0 ≤ config.available) (htotal : s.totalTokens = sum s.entries) :
    ∃ k, (s.truncate config).entries.Perm (s.queue.drop k) ∧
      (s.truncate config).totalTokens = sum (s.truncate config).entries ∧
      (s.truncate config).totalTokens ≤ config.available := by
  rw [truncate_eq]
  obtain ⟨k, hperm, hsum, hle | hnil⟩ :=
    dropWhileOver_spec (perm_queue : s.entries.Perm s.queue) htotal
  · exact ⟨k, hperm, hsum, hle⟩
  · refine ⟨k, hperm, hsum, ?_⟩
    rw [hsum, hnil]
    exact havailable

theorem sum_append_entry (htotal : s.totalTokens = sum s.entries) :
    (s.append e).totalTokens = sum (s.append e).entries := by
  rw [append, htotal, sum_append]

theorem total_addEntry (havailable : 0 ≤ config.available) (htotal : s.totalTokens = sum s.entries) :
    (s.addEntry config a).totalTokens = sum (s.addEntry config a).entries := by
  rw [addEntry]
  split
  case isTrue =>
    obtain ⟨k, -, hsum, -⟩ := truncate_spec havailable (sum_append_entry htotal)
    exact hsum
  case isFalse => exact sum_append_entry htotal

theorem fair_addEntry (havailable : 0 ≤ config.available) (htotal : s.totalTokens = sum s.entries) :
    Fair config s a := by
  intro d hd e he hsummary
  rw [addEntry] at hd he
  split at hd
  case isTrue hover =>
    rw [if_pos hover] at he
    obtain ⟨k, hperm, -⟩ := truncate_spec havailable (sum_append_entry htotal)
    exact fair_of_drop hperm hd he hsummary
  case isFalse => exact absurd hd (Nat.lt_irrefl _)

theorem sound_addEntry (havailable : 0 ≤ config.available) (htotal : s.totalTokens = sum s.entries) :
    Sound config (s.addEntry config a) ↔ Clear config s a := by
  have hafter := total_addEntry (a := a) havailable htotal
  by_cases hover : config.maxTokens * config.truncateThreshold <
      ((s.append a.entry).totalTokens : Rat)
  · obtain ⟨k, -, -, hle⟩ := truncate_spec havailable (sum_append_entry (e := a.entry) htotal)
    refine iff_of_true ⟨hafter, ?_⟩ fun _ => hover
    rw [addEntry, if_pos hover, tokenBudget]
    exact Int.sub_nonneg_of_le hle
  · have hsame : s.addEntry config a = s.append a.entry := if_neg hover
    rw [hsame] at hafter ⊢
    refine ⟨fun hsound hlt => absurd hsound.budget ?_, fun hclear => ⟨hafter, ?_⟩⟩
    · rw [tokenBudget, Int.not_le]
      exact Int.sub_neg_of_lt hlt
    · rw [tokenBudget]
      exact Int.sub_nonneg_of_le (Int.not_lt.mp fun hlt => hover (hclear hlt))

/-- Right after every entry that is added the counter is right, there is a budget left, and what
went had to go, just where no total ends up between the two thresholds. -/
theorem entries_sound_iff (hbudgeted : config.Budgeted) (adds : List AddEntry) :
    Along (addEntry config) (Sound config) (Fair config) {} adds ↔
      Steps (addEntry config) (Clear config) {} adds := by
  have havailable : 0 ≤ config.available := hbudgeted.available_nonneg
  refine along_iff_steps (fun s => s.totalTokens = sum s.entries)
    (fun s a h => total_addEntry havailable h) (fun s a h _ => ?_) rfl
    ⟨rfl, Int.sub_nonneg_of_le havailable⟩ adds
  rw [and_iff_left (fair_addEntry havailable h)]
  exact sound_addEntry havailable h

theorem sound_greeting :
    Along (addEntry {}) (Sound {}) (Fair {}) {} [{ role := "user", content := ['h', 'i'] }] :=
  (entries_sound_iff ⟨by decide, by decide⟩ _).mpr
    ⟨trivial, fun hover => absurd hover (by decide), trivial⟩

/-- Seven tokens are too many beside a reserve of five out of ten, and too few to be truncated. -/
theorem not_sound_between :
    ¬∀ (config : ContextConfig) (adds : List AddEntry), config.Budgeted →
      Along (addEntry config) (Sound config) (Fair config) {} adds := by
  intro h
  have halong := h { maxTokens := 10, reserveTokens := 5 }
    [{ role := "user", content := List.replicate 28 'x' }] ⟨by decide, by decide⟩
  exact absurd halong.last.budget (by decide +kernel)

end ContextManager

end Prodinamik.Agents
