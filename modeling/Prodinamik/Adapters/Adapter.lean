import Mathlib.Data.List.Basic
import Mathlib.Data.List.Induction
import Mathlib.Data.Nat.Find
import Prodinamik.Lib.Run

namespace Prodinamik.Adapters

open Lib.Run

/-- What an attempt of _send comes to. -/
inductive Attempt (ρ : Type)
  | succeeds (result : ρ)
  | transientError
  | permanentError
  deriving DecidableEq

structure AdapterDef where
  maxRetries : Nat := 3
  circuitBreakerThreshold : Nat := 3

structure Adapter where
  failureCount : Nat := 0
  circuitOpen : Bool := false
  deriving DecidableEq

/-- What a send comes to: a result of _send, or none where the artifact goes to the fallback, and
how often _send was called for it. -/
structure Sent (ρ : Type) where
  answer : Option ρ
  calls : Nat
  adapter : Adapter

variable {ρ : Type} (defn : AdapterDef)

namespace Adapter

def recordFailure (s : Adapter) : Adapter where
  failureCount := s.failureCount + 1
  circuitOpen := s.circuitOpen || decide (defn.circuitBreakerThreshold ≤ s.failureCount + 1)

/-- The seconds to wait after a transient error, one entry for each attempt. -/
def backoff : List Nat := [1, 5, 30]

/-- The attempts that are left, from this one on. -/
def attempts (s : Adapter) (outcome : Nat → Attempt ρ) : Nat → Nat → Sent ρ
  | 0, attempt => ⟨none, attempt, s⟩
  | left + 1, attempt =>
      match outcome attempt with
      | .succeeds result => ⟨some result, attempt + 1, { s with failureCount := 0 }⟩
      | .transientError =>
          if attempt < backoff.length then attempts s outcome left (attempt + 1)
          else ⟨none, attempt + 1, s.recordFailure defn⟩
      | .permanentError => ⟨none, attempt + 1, s.recordFailure defn⟩

def send (s : Adapter) (outcome : Nat → Attempt ρ) : Sent ρ :=
  if s.circuitOpen then ⟨none, 0, s⟩ else attempts defn s outcome defn.maxRetries 0

def run (s : Adapter) (sends : List (Nat → Attempt ρ)) : Adapter :=
  sends.foldl (fun s outcome => (s.send defn outcome).adapter) s

/-- The send ends in the fallback because all its attempts failed. -/
def Fails (s : Adapter) (outcome : Nat → Attempt ρ) : Prop :=
  (s.send defn outcome).answer = none ∧ 0 < (s.send defn outcome).calls

def AllFail (s : Adapter) (sends : List (Nat → Attempt ρ)) : Prop :=
  Steps (fun s outcome => (s.send defn outcome).adapter) (Fails defn) s sends

/-- A failed send is counted when it ends in a permanent error, or has attempts for which there is
no time to wait. -/
def Counted (outcome : Nat → Attempt ρ) : Prop :=
  backoff.length < defn.maxRetries ∨ ∃ i < defn.maxRetries, outcome i = .permanentError

/-- No attempt that is made succeeds: none is made after a permanent error or beyond the waits. -/
def Exhausted (outcome : Nat → Attempt ρ) : Prop :=
  ∀ i < defn.maxRetries, ∀ result, outcome i = .succeeds result →
    ∃ j < i, outcome j = .permanentError ∨ backoff.length ≤ j

/-- As many sends in a row as the threshold says, none of which succeeds in any attempt. -/
structure Row (sends before block : List (Nat → Attempt ρ)) : Prop where
  within : before ++ block <+: sends
  length : block.length = defn.circuitBreakerThreshold
  exhausted : ∀ outcome ∈ block, Exhausted defn outcome

structure FirstRow (sends before block : List (Nat → Attempt ρ)) : Prop where
  row : Row defn sends before block
  least : ∀ front block', Row defn sends front block' → before.length ≤ front.length

/-- The circuit opens with so many failed sends in a row and only with them; once it is open,
nothing is sent. -/
structure Breaks (sends : List (Nat → Attempt ρ)) : Prop where
  opens : ∀ before block after, before ++ block ++ after <+: sends →
    block.length = defn.circuitBreakerThreshold → AllFail defn (run defn {} before) block →
    (run defn {} (before ++ block ++ after)).circuitOpen = true
  quiet : ∀ before outcome, before ++ [outcome] <+: sends →
    (run defn {} before).circuitOpen = true → ((run defn {} before).send defn outcome).calls = 0
  only : ∀ before, before <+: sends → (run defn {} before).circuitOpen = true →
    ∃ front block rest, before = front ++ block ++ rest ∧
      block.length = defn.circuitBreakerThreshold ∧ AllFail defn (run defn {} front) block

variable {defn} {s : Adapter} {outcome : Nat → Attempt ρ}

/-- How a send through a closed circuit ends. -/
inductive Ends (defn : AdapterDef) (s : Adapter) (outcome : Nat → Attempt ρ) : Sent ρ → Prop
  | succeeds {result : ρ} {calls : Nat} (hnot : ¬Exhausted defn outcome) :
      Ends defn s outcome ⟨some result, calls, { s with failureCount := 0 }⟩
  | counted {calls : Nat} (hcalls : 0 < calls) (hall : Exhausted defn outcome)
      (hcounted : Counted defn outcome) :
      Ends defn s outcome ⟨none, calls, s.recordFailure defn⟩
  | uncounted {calls : Nat} (hcalls : 0 < calls) (hall : Exhausted defn outcome)
      (hnot : ¬Counted defn outcome) :
      Ends defn s outcome ⟨none, calls, s⟩

theorem ends_attempts (hretries : 0 < defn.maxRetries) (left attempt : Nat)
    (hsum : attempt + left = defn.maxRetries) (hle : attempt ≤ backoff.length)
    (hbefore : ∀ i < attempt, outcome i = .transientError) :
    Ends defn s outcome (attempts defn s outcome left attempt) := by
  induction left generalizing attempt with
  | zero =>
      rw [Nat.add_zero] at hsum
      subst hsum
      refine .uncounted hretries (fun i hi result hsucceeds => ?_) ?_
      · rw [hbefore i hi] at hsucceeds
        cases hsucceeds
      · rintro (hlong | ⟨i, hi, hpermanent⟩)
        · exact absurd hle (Nat.not_le.mpr hlong)
        · rw [hbefore i hi] at hpermanent
          cases hpermanent
  | succ left ih =>
      have hlt : attempt < defn.maxRetries := by omega
      -- a later attempt is not made, once this one ends the loop without a result
      have hexhausted (hnot : ∀ result, outcome attempt ≠ .succeeds result)
          (hstop : outcome attempt = .permanentError ∨ backoff.length ≤ attempt) :
          Exhausted defn outcome := by
        intro i _ result hsucceeds
        rcases Nat.lt_trichotomy i attempt with hi | rfl | hi
        · rw [hbefore i hi] at hsucceeds
          cases hsucceeds
        · exact absurd hsucceeds (hnot result)
        · exact ⟨attempt, hi, hstop⟩
      rw [attempts]
      cases hattempt : outcome attempt with
      | succeeds result =>
          refine .succeeds fun hall => ?_
          obtain ⟨j, hj, hpermanent | hlong⟩ := hall attempt hlt result hattempt
          · rw [hbefore j hj] at hpermanent
            cases hpermanent
          · omega
      | permanentError =>
          refine .counted attempt.succ_pos (hexhausted ?_ (.inl hattempt))
            (.inr ⟨attempt, hlt, hattempt⟩)
          rintro result hsucceeds
          rw [hattempt] at hsucceeds
          cases hsucceeds
      | transientError =>
          dsimp only
          split
          case isTrue hwait =>
            refine ih (attempt + 1) (by omega) hwait fun i hi => ?_
            rcases Nat.lt_succ_iff_lt_or_eq.mp hi with hi | rfl
            · exact hbefore i hi
            · exact hattempt
          case isFalse hwait =>
            refine .counted attempt.succ_pos (hexhausted ?_ (.inr (Nat.not_lt.mp hwait)))
              (.inl (Nat.lt_of_le_of_lt (Nat.not_lt.mp hwait) hlt))
            rintro result hsucceeds
            rw [hattempt] at hsucceeds
            cases hsucceeds

theorem ends_send (hretries : 0 < defn.maxRetries) (hclosed : s.circuitOpen = false) :
    Ends defn s outcome (s.send defn outcome) := by
  rw [send, hclosed, if_neg Bool.false_ne_true]
  exact ends_attempts hretries _ 0 (Nat.zero_add _) (Nat.zero_le _) fun i hi =>
    absurd hi (Nat.not_lt_zero i)

theorem send_open (hopen : s.circuitOpen = true) : s.send defn outcome = ⟨none, 0, s⟩ := by
  rw [send, if_pos hopen]

theorem not_fails_open (hopen : s.circuitOpen = true) : ¬Fails defn s outcome := by
  rw [Fails, send_open hopen]
  exact fun h => absurd h.2 (Nat.lt_irrefl 0)

/-! The failures that are counted. -/

/-- The circuit is open once as many failures are counted as the threshold says. -/
def Consistent (defn : AdapterDef) (s : Adapter) : Prop :=
  s.circuitOpen = true ↔ defn.circuitBreakerThreshold ≤ s.failureCount

variable {sends before block : List (Nat → Attempt ρ)}

theorem run_append (sends' : List (Nat → Attempt ρ)) :
    run defn s (sends ++ sends') = run defn (run defn s sends) sends' := List.foldl_append

theorem run_concat : run defn s (sends ++ [outcome]) =
    ((run defn s sends).send defn outcome).adapter := run_append _

theorem allFail_append {sends' : List (Nat → Attempt ρ)} :
    AllFail defn s (sends ++ sends') ↔ AllFail defn s sends ∧ AllFail defn (run defn s sends) sends' :=
  steps_append

theorem allFail_singleton : AllFail defn s [outcome] ↔ Fails defn s outcome :=
  steps_cons.trans (and_iff_left trivial)

theorem run_open (hopen : s.circuitOpen = true) : run defn s sends = s := by
  induction sends with
  | nil => rfl
  | cons outcome sends ih =>
      rw [run, List.foldl_cons, send_open hopen]
      exact ih

theorem open_append (hopen : (run defn s sends).circuitOpen = true)
    (sends' : List (Nat → Attempt ρ)) :
    (run defn s (sends ++ sends')).circuitOpen = true := by
  rw [run_append, run_open hopen]
  exact hopen

theorem allFail_last {n : Nat} (h : AllFail defn (run defn s before) block)
    (hn : n ≤ block.length) :
    ∃ front last, before ++ block = front ++ last ∧ last.length = n ∧
      AllFail defn (run defn s front) last := by
  rw [← List.take_append_drop (block.length - n) block, allFail_append, ← run_append] at h
  refine ⟨before ++ block.take (block.length - n), block.drop (block.length - n), ?_, ?_, h.2⟩
  · rw [List.append_assoc, List.take_append_drop]
  · rw [List.length_drop]
    omega

theorem exists_firstRow (h : Row defn sends before block) :
    ∃ front row, FirstRow defn sends front row ∧ front.length ≤ before.length := by
  classical
  have hexists : ∃ n front block', Row defn sends front block' ∧ front.length = n :=
    ⟨_, before, block, h, rfl⟩
  obtain ⟨front, row, hrow, hn⟩ := Nat.find_spec hexists
  refine ⟨front, row, ⟨hrow, fun front' block' hrow' => ?_⟩, ?_⟩
  · exact hn.symm ▸ Nat.find_min' hexists ⟨front', block', hrow', rfl⟩
  · exact hn.symm ▸ Nat.find_min' hexists ⟨before, block, h, rfl⟩

section Counting

variable (hretries : 0 < defn.maxRetries) (hthreshold : 0 < defn.circuitBreakerThreshold)
include hretries

theorem fails_cases (h : Fails defn s outcome) :
    s.circuitOpen = false ∧
      (Counted defn outcome ∧ (s.send defn outcome).adapter = s.recordFailure defn ∨
        ¬Counted defn outcome ∧ (s.send defn outcome).adapter = s) := by
  have hclosed : s.circuitOpen = false :=
    Bool.eq_false_iff.mpr fun hopen => not_fails_open hopen h
  refine ⟨hclosed, ?_⟩
  rw [Fails] at h
  cases hsend : s.send defn outcome with
  | mk answer calls adapter =>
      have hends : Ends defn s outcome _ := ends_send hretries hclosed
      rw [hsend] at hends h
      cases hends with
      | succeeds => cases h.1
      | counted hcalls hall hcounted => exact .inl ⟨hcounted, rfl⟩
      | uncounted hcalls hall hnot => exact .inr ⟨hnot, rfl⟩

theorem fails_iff : Fails defn s outcome ↔ s.circuitOpen = false ∧ Exhausted defn outcome := by
  by_cases hopen : s.circuitOpen = true
  · exact iff_of_false (not_fails_open hopen) fun h => absurd hopen (Bool.eq_false_iff.mp h.1)
  · rw [Bool.not_eq_true] at hopen
    rw [and_iff_right hopen, Fails]
    have hends : Ends defn s outcome _ := ends_send hretries hopen
    cases hsend : s.send defn outcome with
    | mk answer calls adapter =>
        rw [hsend] at hends
        cases hends with
        | succeeds hnot => exact iff_of_false (fun h => by cases h.1) hnot
        | counted hcalls hall => exact iff_of_true ⟨rfl, hcalls⟩ hall
        | uncounted hcalls hall => exact iff_of_true ⟨rfl, hcalls⟩ hall

theorem AllFail.exhausted (h : AllFail defn s block) :
    ∀ outcome ∈ block, Exhausted defn outcome := by
  induction block generalizing s with
  | nil => exact List.forall_mem_nil _
  | cons outcome block ih =>
      obtain ⟨hfails, hblock⟩ := steps_cons.mp h
      exact List.forall_mem_cons.mpr ⟨((fails_iff hretries).mp hfails).2, ih hblock⟩

/-- Failed sends are counted one by one, as far as they are. -/
theorem failureCount_run (h : AllFail defn s block) :
    (run defn s block).failureCount ≤ s.failureCount + block.length ∧
      ((run defn s block).failureCount = s.failureCount + block.length ↔
        ∀ outcome ∈ block, Counted defn outcome) := by
  induction block generalizing s with
  | nil => exact ⟨Nat.le_refl _, iff_of_true rfl (List.forall_mem_nil _)⟩
  | cons outcome block ih =>
      obtain ⟨hfails, hblock⟩ := steps_cons.mp h
      obtain ⟨hle, hiff⟩ := ih hblock
      rw [run, List.foldl_cons, ← run, List.length_cons, List.forall_mem_cons]
      rcases (fails_cases hretries hfails).2 with ⟨hcounted, hadapter⟩ | ⟨hnot, hadapter⟩
      · rw [hadapter] at hle hiff ⊢
        have hcount : (s.recordFailure defn).failureCount = s.failureCount + 1 := rfl
        rw [hcount] at hle hiff
        rw [and_iff_right hcounted, ← hiff]
        exact ⟨by omega, by omega⟩
      · rw [hadapter] at hle hiff ⊢
        refine ⟨by omega, iff_of_false (by omega) fun hall => hnot hall.1⟩

theorem allFail_of_closed (hall : ∀ outcome ∈ block, Exhausted defn outcome)
    (hclosed : ∀ front outcome rest, block = front ++ outcome :: rest →
      (run defn s front).circuitOpen = false) : AllFail defn s block := by
  induction block generalizing s with
  | nil => trivial
  | cons outcome block ih =>
      rw [List.forall_mem_cons] at hall
      refine steps_cons.mpr
        ⟨(fails_iff hretries).mpr ⟨hclosed [] outcome block rfl, hall.1⟩, ih hall.2 ?_⟩
      intro front outcome' rest hsplit
      exact hclosed (outcome :: front) outcome' rest (by rw [hsplit, List.cons_append])

include hthreshold

theorem Consistent.send (h : Consistent defn s) :
    Consistent defn (s.send defn outcome).adapter := by
  by_cases hopen : s.circuitOpen = true
  · rw [send_open hopen]
    exact h
  · rw [Bool.not_eq_true] at hopen
    have hends : Ends defn s outcome _ := ends_send hretries hopen
    cases hsend : s.send defn outcome with
    | mk answer calls adapter =>
        rw [hsend] at hends
        cases hends with
        | succeeds =>
            rw [Consistent, hopen]
            exact iff_of_false Bool.false_ne_true (Nat.not_le.mpr hthreshold)
        | counted => simp [Consistent, recordFailure, hopen]
        | uncounted => exact h

theorem consistent_run (h : Consistent defn s) : Consistent defn (run defn s sends) := by
  induction sends generalizing s with
  | nil => exact h
  | cons outcome sends ih => exact ih (h.send hretries hthreshold)

theorem consistent_fresh : Consistent defn (run defn {} sends) :=
  consistent_run hretries hthreshold (iff_of_false Bool.false_ne_true (Nat.not_le.mpr hthreshold))

/-- Behind a closed circuit stand the failed sends of which some are counted; before an open one
stand as many as the threshold says. -/
theorem recent (before : List (Nat → Attempt ρ)) :
    ((run defn {} before).circuitOpen = false → ∃ front block, before = front ++ block ∧
      AllFail defn (run defn {} front) block ∧
      (run defn {} before).failureCount ≤ block.length) ∧
    ((run defn {} before).circuitOpen = true → ∃ front block rest, before = front ++ block ++ rest ∧
      block.length = defn.circuitBreakerThreshold ∧ AllFail defn (run defn {} front) block) := by
  induction before using List.reverseRecOn with
  | nil => exact ⟨fun _ => ⟨[], [], rfl, trivial, Nat.le_refl 0⟩, fun h => absurd h Bool.false_ne_true⟩
  | append_singleton before outcome ih =>
      rw [run_concat]
      by_cases hopen : (run defn {} before).circuitOpen = true
      · rw [send_open hopen]
        obtain ⟨front, block, rest, hsplit, hlength, hfail⟩ := ih.2 hopen
        refine ⟨fun h => absurd hopen (Bool.eq_false_iff.mp h), fun _ => ?_⟩
        exact ⟨front, block, rest ++ [outcome], by rw [hsplit, List.append_assoc], hlength, hfail⟩
      · rw [Bool.not_eq_true] at hopen
        obtain ⟨front, block, hsplit, hfail, hle⟩ := ih.1 hopen
        have hend : run defn (run defn {} front) block = run defn {} before := by
          rw [hsplit, run_append]
        have hsplit' : before ++ [outcome] = front ++ (block ++ [outcome]) := by
          rw [hsplit, List.append_assoc]
        have hends : Ends defn (run defn {} before) outcome _ := ends_send hretries hopen
        cases hsend : (run defn {} before).send defn outcome with
        | mk answer calls adapter =>
            have hlonger : Fails defn (run defn {} before) outcome →
                AllFail defn (run defn {} front) (block ++ [outcome]) := fun hfails =>
              allFail_append.mpr ⟨hfail, allFail_singleton.mpr (hend.symm ▸ hfails)⟩
            rw [hsend] at hends
            cases hends with
            | succeeds =>
                refine ⟨fun _ => ⟨before ++ [outcome], [], (List.append_nil _).symm, trivial,
                  Nat.le_refl 0⟩, fun h => ?_⟩
                rw [show (_ : Bool) = false from hopen] at h
                cases h
            | uncounted hcalls =>
                refine ⟨fun _ => ⟨front, block ++ [outcome], hsplit', hlonger ?_, ?_⟩, fun h => ?_⟩
                · exact ⟨by rw [hsend], by rw [hsend]; exact hcalls⟩
                · rw [List.length_append]
                  exact Nat.le_trans hle (Nat.le_add_right _ _)
                · exact absurd h (Bool.eq_false_iff.mp hopen)
            | counted hcalls =>
                have hfails : Fails defn (run defn {} before) outcome :=
                  ⟨by rw [hsend], by rw [hsend]; exact hcalls⟩
                have hcount : (Adapter.recordFailure defn (run defn {} before)).failureCount ≤
                    (block ++ [outcome]).length := by
                  rw [List.length_append]
                  exact Nat.succ_le_succ hle
                refine ⟨fun _ => ⟨front, block ++ [outcome], hsplit', hlonger hfails, hcount⟩,
                  fun h => ?_⟩
                have hconsistent : Consistent defn (run defn {} (before ++ [outcome])) :=
                  consistent_fresh hretries hthreshold
                rw [run_concat, hsend] at hconsistent
                obtain ⟨front', last, hlast, hlength, hfail'⟩ :=
                  allFail_last (hlonger hfails) (Nat.le_trans (hconsistent.mp h) hcount)
                refine ⟨front', last, [], ?_, hlength, hfail'⟩
                rw [List.append_nil, hsplit', hlast]

/-- The circuit breaker does what it says just where each of so many failed sends in a row is
counted. -/
theorem breaks_iff_counted :
    Breaks defn sends ↔ ∀ before block, before ++ block <+: sends →
      block.length = defn.circuitBreakerThreshold → AllFail defn (run defn {} before) block →
      ∀ outcome ∈ block, Counted defn outcome := by
  constructor
  · intro h before block hprefix hlength hfail
    have hopen : (run defn {} (before ++ block)).circuitOpen = true := by
      have hopens := h.opens before block [] (by rwa [List.append_nil]) hlength hfail
      rwa [List.append_nil] at hopens
    have hcount := (consistent_fresh hretries hthreshold).mp hopen
    obtain ⟨hle, hiff⟩ := failureCount_run hretries hfail
    rw [run_append] at hcount
    by_cases hzero : (run defn {} before).failureCount = 0
    · rw [hzero, Nat.zero_add, hlength] at hle hiff
      exact hiff.mp (Nat.le_antisymm hle hcount)
    · -- the send before failed too, so that the circuit was open before the last of the block
      have hclosed : (run defn {} before).circuitOpen = false := by
        cases block with
        | nil => exact absurd hlength.symm (Nat.ne_of_gt hthreshold)
        | cons outcome block => exact (fails_cases hretries (steps_cons.mp hfail).1).1
      obtain rfl | ⟨before', earlier, rfl⟩ := before.eq_nil_or_concat'
      · exact absurd rfl hzero
      obtain rfl | ⟨block', last, rfl⟩ := block.eq_nil_or_concat'
      · exact absurd hlength.symm (Nat.ne_of_gt hthreshold)
      have hclosed' : (run defn {} before').circuitOpen = false :=
        Bool.eq_false_iff.mpr fun hopen' => Bool.eq_false_iff.mp hclosed (open_append hopen' _)
      have hearlier : Fails defn (run defn {} before') earlier := by
        rw [run_concat] at hzero
        rw [Fails]
        have hends : Ends defn (run defn {} before') earlier _ := ends_send hretries hclosed'
        cases hsend : (run defn {} before').send defn earlier with
        | mk answer calls adapter =>
            rw [hsend] at hends hzero
            cases hends with
            | succeeds => exact absurd rfl hzero
            | counted hcalls => exact ⟨rfl, hcalls⟩
            | uncounted hcalls => exact ⟨rfl, hcalls⟩
      obtain ⟨hblock', hlast⟩ := allFail_append.mp hfail
      have hopens := h.opens before' (earlier :: block') [] ?_ ?_ (steps_cons.mpr ⟨hearlier, ?_⟩)
      · rw [List.append_nil, List.append_cons, run_append] at hopens
        exact absurd (allFail_singleton.mp hlast) (not_fails_open hopens)
      · rw [List.append_nil, List.append_cons]
        exact (List.append_assoc (before' ++ [earlier]) block' [last] ▸
          List.prefix_append _ [last]).trans hprefix
      · rw [List.length_append] at hlength
        exact hlength
      · rw [run_concat] at hblock'
        exact hblock'
  · intro h
    refine ⟨fun before block after hprefix hlength hfail => ?_, fun before outcome _ hopen => ?_,
      fun before _ hopen => (recent hretries hthreshold before).2 hopen⟩
    · refine open_append ?_ after
      have hcounted := h before block ((List.prefix_append _ after).trans hprefix) hlength hfail
      have hcount := (failureCount_run hretries hfail).2.mpr hcounted
      refine (consistent_fresh hretries hthreshold).mpr ?_
      rw [run_append, hcount, hlength]
      exact Nat.le_add_left _ _
    · rw [send_open hopen]

/-- No circuit is open before the end of the first row. -/
theorem FirstRow.allFail (h : FirstRow defn sends before block) :
    AllFail defn (run defn {} before) block := by
  refine allFail_of_closed hretries h.row.exhausted fun front outcome rest hsplit => ?_
  refine Bool.eq_false_iff.mpr fun hopen => ?_
  rw [← run_append] at hopen
  obtain ⟨front', block', rest', heq, hlength, hfail⟩ := (recent hretries hthreshold _).2 hopen
  have hwithin : front' ++ block' <+: sends := by
    refine (List.prefix_append _ rest').trans ?_
    rw [← heq]
    refine List.IsPrefix.trans ?_ h.row.within
    rw [hsplit]
    exact (List.prefix_append_right_inj before).mpr (List.prefix_append _ _)
  have hle := h.least front' block' ⟨hwithin, hlength, hfail.exhausted hretries⟩
  have hlengths := congrArg List.length heq
  have hrow := congrArg List.length hsplit
  rw [h.row.length] at hrow
  simp only [List.length_append, List.length_cons] at hlengths hrow
  omega

/-- The circuit breaker does what it says just where each send of the first row of failing ones is
counted. -/
theorem breaks_iff :
    Breaks defn sends ↔ ∀ before block, FirstRow defn sends before block →
      ∀ outcome ∈ block, Counted defn outcome := by
  rw [breaks_iff_counted hretries hthreshold]
  constructor
  · intro h before block hfirst
    exact h before block hfirst.row.within hfirst.row.length (hfirst.allFail hretries hthreshold)
  · intro h before block hwithin hlength hfail
    obtain ⟨front, row, hfirst, hle⟩ :=
      exists_firstRow ⟨hwithin, hlength, hfail.exhausted hretries⟩
    have hopen : (run defn {} (front ++ row)).circuitOpen = true := by
      refine (consistent_fresh hretries hthreshold).mpr ?_
      have hcount := (failureCount_run hretries (hfirst.allFail hretries hthreshold)).2.mpr
        (h front row hfirst)
      rw [run_append, hcount, hfirst.row.length]
      exact Nat.le_add_left _ _
    obtain rfl | ⟨block', last, rfl⟩ := block.eq_nil_or_concat'
    · exact absurd hlength.symm (Nat.ne_of_gt hthreshold)
    by_cases hlt : front.length < before.length
    · -- the circuit was open before the last send of the block
      have hrow : front ++ row <+: before ++ block' := by
        refine List.prefix_of_prefix_length_le hfirst.row.within ?_ ?_
        · refine List.IsPrefix.trans ?_ hwithin
          rw [← List.append_assoc]
          exact List.prefix_append _ _
        · rw [List.length_append, List.length_singleton] at hlength
          rw [List.length_append, List.length_append, hfirst.row.length, ← hlength]
          omega
      obtain ⟨rest, hrest⟩ := hrow
      have hopen' := open_append hopen rest
      rw [hrest, run_append] at hopen'
      exact absurd (allFail_singleton.mp (allFail_append.mp hfail).2) (not_fails_open hopen')
    · have hlengths : (front ++ row).length = (before ++ (block' ++ [last])).length := by
        rw [List.length_append, List.length_append, hfirst.row.length, hlength]
        omega
      have heq := (List.prefix_of_prefix_length_le hfirst.row.within hwithin
        (Nat.le_of_eq hlengths)).eq_of_length hlengths
      have hsame : front.length = before.length := by omega
      obtain ⟨rfl, rfl⟩ := List.append_inj heq hsame
      exact h front (block' ++ [last]) hfirst

end Counting

theorem breaks_permanentError :
    Breaks {} (List.replicate 4 fun _ => (.permanentError : Attempt Unit)) := by
  refine (breaks_iff (by decide) (by decide)).mpr fun before block hfirst outcome houtcome => ?_
  have hmem := hfirst.row.within.subset (List.mem_append_right before houtcome)
  rw [List.eq_of_mem_replicate hmem]
  exact .inr ⟨0, by decide, rfl⟩

/-- Three transient errors use up the attempts without reaching the end of the waits. -/
theorem not_breaks_transientError :
    ¬∀ (defn : AdapterDef) (sends : List (Nat → Attempt Unit)), 0 < defn.maxRetries →
      0 < defn.circuitBreakerThreshold → Breaks defn sends := by
  intro h
  have hbreaks := h {} (List.replicate 3 fun _ => .transientError) (by decide) (by decide)
  have hopen := hbreaks.opens [] (List.replicate 3 fun _ => .transientError) []
    (List.prefix_refl _) rfl ⟨trivial, ⟨rfl, by decide⟩, trivial, ⟨rfl, by decide⟩, trivial,
      ⟨rfl, by decide⟩, trivial⟩
  exact absurd hopen Bool.false_ne_true

end Adapter

end Prodinamik.Adapters
