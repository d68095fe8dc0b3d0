import Prodinamik.Raft.DistributedStateMachine

namespace Prodinamik.Raft

open Lib

/-- Entries that carry the positions start, start + 1, ... -/
def Indexed (start : Int) (entries : List LogEntry) : Prop :=
  ∀ (i : Nat) (entry : LogEntry), entries[i]? = some entry → entry.index = start + i

theorem Indexed.nil (start : Int) : Indexed start [] := by
  intro i entry hi
  cases hi

theorem Indexed.single (term start : Int) (command : Command) :
    Indexed start [⟨term, start, command⟩] := by
  intro i entry hi
  cases i with
  | zero =>
      rw [List.getElem?_cons_zero, Option.some.injEq] at hi
      subst hi
      simp
  | succ i => simp at hi

theorem Indexed.take {start : Int} {entries : List LogEntry} (h : Indexed start entries) (n : Nat) :
    Indexed start (entries.take n) := by
  intro i entry hi
  rw [List.getElem?_take] at hi
  split at hi
  · exact h i entry hi
  · cases hi

theorem Indexed.drop {start : Int} {entries : List LogEntry} (h : Indexed start entries) (n : Nat) :
    Indexed (start + n) (entries.drop n) := by
  intro i entry hi
  rw [List.getElem?_drop] at hi
  have hindex := h (n + i) entry hi
  rw [hindex, Int.natCast_add, Int.add_assoc]

theorem Indexed.append {start : Int} {front back : List LogEntry} (hf : Indexed start front)
    (hb : Indexed (start + front.length) back) : Indexed start (front ++ back) := by
  intro i entry hi
  rcases Nat.lt_or_ge i front.length with hlt | hge
  · rw [List.getElem?_append_left hlt] at hi
    exact hf i entry hi
  · rw [List.getElem?_append_right hge] at hi
    have hindex := hb _ entry hi
    omega

/-- The log holds an entry of that term at that position. -/
def TermAt (log : List LogEntry) (position : Nat) (term : Int) : Prop :=
  ∃ entry, log[position]? = some entry ∧ entry.term = term

/-- The log and the message hold different terms for one position. -/
def ConflictAt (log entries : List LogEntry) (start i : Nat) : Prop :=
  ∃ old entry, log[start + i]? = some old ∧ entries[i]? = some entry ∧ old.term ≠ entry.term

/-- The first n entries of the message are in the log already, term by term. -/
def AgreesFor (log entries : List LogEntry) (start n : Nat) : Prop :=
  ∀ i entry, i < n → entries[i]? = some entry → TermAt log (start + i) entry.term

/-- What the loop of append_entries makes of a log that is no shorter than the
position the message starts at. -/
inductive Written (log entries : List LogEntry) (start : Nat) : List LogEntry → Prop
  | kept : AgreesFor log entries start entries.length → Written log entries start log
  | extended (n : Nat) : AgreesFor log entries start n → start + n = log.length →
      Written log entries start (log ++ entries.drop n)
  | replaced (n : Nat) : AgreesFor log entries start n → ConflictAt log entries start n →
      Written log entries start (log.take (start + n) ++ entries.drop n)

theorem AgreesFor.cons {log rest : List LogEntry} {entry old : LogEntry} {start n : Nat}
    (hget : log[start]? = some old) (hterm : old.term = entry.term)
    (h : AgreesFor log rest (start + 1) n) : AgreesFor log (entry :: rest) start (n + 1) := by
  intro i e hi he
  cases i with
  | zero =>
      rw [List.getElem?_cons_zero, Option.some.injEq] at he
      exact ⟨old, hget, he ▸ hterm⟩
  | succ i =>
      rw [List.getElem?_cons_succ] at he
      have hat := h i e (by omega) he
      rwa [Nat.add_right_comm] at hat

theorem Written.cons {log rest written : List LogEntry} {entry old : LogEntry} {start : Nat}
    (hget : log[start]? = some old) (hterm : old.term = entry.term)
    (h : Written log rest (start + 1) written) : Written log (entry :: rest) start written := by
  cases h with
  | kept hagree => exact .kept (hagree.cons hget hterm)
  | extended n hagree hend => exact .extended (n + 1) (hagree.cons hget hterm) (by omega)
  | replaced n hagree hconflict =>
      obtain ⟨o, e, ho, he, hne⟩ := hconflict
      have hconflict : ConflictAt log (entry :: rest) start (n + 1) :=
        ⟨o, e, by rwa [← Nat.add_assoc, Nat.add_right_comm], by rwa [List.getElem?_cons_succ], hne⟩
      have h := Written.replaced (n + 1) (hagree.cons hget hterm) hconflict
      rwa [← Nat.add_assoc, Nat.add_right_comm, List.drop_succ_cons] at h

theorem Written.indexed {log entries written : List LogEntry} {start : Nat}
    (h : Written log entries start written) (hlog : Indexed 0 log)
    (hentries : Indexed start entries) : Indexed 0 written := by
  cases h with
  | kept => exact hlog
  | extended n hagree hend =>
      refine hlog.append ?_
      have hback := hentries.drop n
      rwa [Int.zero_add, ← hend, Int.natCast_add]
  | replaced n hagree hconflict =>
      obtain ⟨old, entry, hold, -⟩ := hconflict
      have hlt : start + n < log.length := (List.getElem?_eq_some_iff.mp hold).1
      refine (hlog.take _).append ?_
      have hback := hentries.drop n
      rwa [List.length_take, min_eq_left hlt.le, Int.zero_add, Int.natCast_add]

theorem TermAt.append {front : List LogEntry} {position : Nat} {term : Int}
    (h : TermAt front position term) (back : List LogEntry) :
    TermAt (front ++ back) position term := by
  obtain ⟨entry, hget, hterm⟩ := h
  have hlt : position < front.length := (List.getElem?_eq_some_iff.mp hget).1
  exact ⟨entry, by rw [List.getElem?_append_left hlt, hget], hterm⟩

theorem TermAt.take {log : List LogEntry} {position n : Nat} {term : Int}
    (h : TermAt log position term) (hn : position < n) : TermAt (log.take n) position term := by
  obtain ⟨entry, hget, hterm⟩ := h
  exact ⟨entry, by rw [List.getElem?_take_of_lt hn, hget], hterm⟩

theorem termAt_back {front entries : List LogEntry} {start n i : Nat} {entry : LogEntry}
    (hfront : front.length = start + n) (hn : n ≤ i) (hi : entries[i]? = some entry) :
    TermAt (front ++ entries.drop n) (start + i) entry.term := by
  refine ⟨entry, ?_, rfl⟩
  rw [List.getElem?_append_right (by omega), List.getElem?_drop, ← hi]
  congr 1
  omega

theorem Written.carries {log entries written : List LogEntry} {start i : Nat} {entry : LogEntry}
    (h : Written log entries start written) (hi : entries[i]? = some entry) :
    TermAt written (start + i) entry.term := by
  have hlt : i < entries.length := (List.getElem?_eq_some_iff.mp hi).1
  cases h with
  | kept hagree => exact hagree i entry hlt hi
  | extended n hagree hend =>
      rcases Nat.lt_or_ge i n with hin | hin
      · exact TermAt.append (hagree i entry hin hi) _
      · exact termAt_back hend.symm hin hi
  | replaced n hagree hconflict =>
      obtain ⟨old, e, hold, -⟩ := hconflict
      have hend : start + n < log.length := (List.getElem?_eq_some_iff.mp hold).1
      rcases Nat.lt_or_ge i n with hin | hin
      · exact TermAt.append (TermAt.take (hagree i entry hin hi) (by omega)) _
      · exact termAt_back (by rw [List.length_take, min_eq_left hend.le]) hin hi

theorem Written.kept_below {log entries written : List LogEntry} {start j : Nat}
    (h : Written log entries start written) (hstart : start ≤ log.length) (hj : j < start) :
    written[j]? = log[j]? := by
  cases h with
  | kept => rfl
  | extended n hagree hend => exact List.getElem?_append_left (by omega)
  | replaced n hagree hconflict =>
      rw [List.getElem?_append_left (by rw [List.length_take]; omega),
        List.getElem?_take_of_lt (by omega)]

/-- Without a conflict the loop drops nothing. -/
theorem Written.conflict {log entries written : List LogEntry} {start j : Nat} {old : LogEntry}
    (h : Written log entries start written) (hj : log[j]? = some old)
    (hdrop : written[j]? ≠ some old) : ∃ i, ConflictAt log entries start i := by
  cases h with
  | kept => exact absurd hj hdrop
  | extended n hagree hend =>
      have hlt : j < log.length := (List.getElem?_eq_some_iff.mp hj).1
      rw [List.getElem?_append_left hlt] at hdrop
      exact absurd hj hdrop
  | replaced n hagree hconflict => exact ⟨n, hconflict⟩

/-- The length of what the loop writes when it meets a conflict. -/
theorem Written.length_of_conflict {log entries written : List LogEntry} {start i : Nat}
    (h : Written log entries start written) (hi : ConflictAt log entries start i) :
    written.length = start + entries.length := by
  obtain ⟨old, entry, hold, hentry, hne⟩ := hi
  have hin : i < entries.length := (List.getElem?_eq_some_iff.mp hentry).1
  have clash (n : Nat) (hagree : AgreesFor log entries start n) (hlt : i < n) : False := by
    obtain ⟨old', hold', hterm⟩ := hagree i entry hlt hentry
    rw [hold] at hold'
    cases hold'
    exact hne hterm
  cases h with
  | kept hagree => exact (clash _ hagree hin).elim
  | extended n hagree hend =>
      have hlt : start + i < log.length := (List.getElem?_eq_some_iff.mp hold).1
      exact (clash n hagree (by omega)).elim
  | replaced n hagree hconflict =>
      obtain ⟨o, e, ho, he, -⟩ := hconflict
      have hlog : start + n < log.length := (List.getElem?_eq_some_iff.mp ho).1
      have hmsg : n < entries.length := (List.getElem?_eq_some_iff.mp he).1
      rw [List.length_append, List.length_take, List.length_drop]
      omega

namespace DistributedStateMachine

theorem writeEntries_written (log entries : List LogEntry) {start : Nat}
    (h : start ≤ log.length) :
    ∃ written, writeEntries log start entries = (written, true) ∧
      Written log entries start written := by
  induction entries generalizing start with
  | nil =>
      refine ⟨log, rfl, .kept ?_⟩
      intro i entry hi
      exact absurd hi (Nat.not_lt_zero i)
  | cons entry rest ih =>
      rcases Nat.lt_or_eq_of_le h with hlt | heq
      · have hget : log[start]? = some log[start] := List.getElem?_eq_getElem hlt
        rw [writeEntries, if_pos (by omega), PyList.get_natCast, hget]
        by_cases hterm : log[start].term = entry.term
        · obtain ⟨written, hrun, hw⟩ := @ih (start + 1) hlt
          refine ⟨written, ?_, hw.cons hget hterm⟩
          simp only [hterm, ne_eq, not_true_eq_false, if_false]
          exact hrun
        · refine ⟨log.take start ++ entry :: rest, ?_, ?_⟩
          · have hslice : PyList.slice log (start : Int) = log.take start :=
              PyList.slice_of_nonneg log (Int.natCast_nonneg start)
            simp only [ne_eq, hterm, not_false_eq_true, if_true, hslice]
            rw [writeEntries_append (by simp), List.append_assoc]
            rfl
          · refine .replaced 0 ?_ ⟨log[start], entry, hget, rfl, hterm⟩
            intro i e hi
            exact absurd hi (Nat.not_lt_zero i)
      · rw [writeEntries_append (by omega)]
        refine ⟨_, rfl, .extended 0 ?_ heq⟩
        intro i e hi
        exact absurd hi (Nat.not_lt_zero i)

/-- What a call that reports success says about the log before and after it. -/
structure Matches (prev prevTerm : Int) (entries before after : List LogEntry) : Prop where
  anchored : prev = -1 ∨ TermAt before prev.toNat prevTerm
  indexed : Indexed 0 after
  carries : ∀ (i : Nat) (entry : LogEntry), entries[i]? = some entry →
    TermAt after ((prev + 1).toNat + i) entry.term
  kept : ∀ j : Nat, (j : Int) ≤ prev → after[j]? = before[j]?
  dropped : ∀ (j : Nat) (old : LogEntry), prev + entries.length < j → before[j]? = some old →
    after[j]? ≠ some old → ∃ i, ConflictAt before entries (prev + 1).toNat i

variable {σ : Type} [StateStore σ]

/-- Every call that reports success does what Matches says. -/
def AppendsMatch (d : DistributedStateMachine σ) (entries : List LogEntry)
    (prev prevTerm leaderCommit : Int) : Prop :=
  ∀ conflictIndex conflictTerm,
    (d.appendEntries entries prev prevTerm leaderCommit).2 =
      some (true, conflictIndex, conflictTerm) →
    Matches prev prevTerm entries d.log (d.appendEntries entries prev prevTerm leaderCommit).1.log

variable {d : DistributedStateMachine σ} {entries : List LogEntry} {prev : Int}

theorem appendsMatch_of_lt (hlog : Indexed 0 d.log) (hprev : -1 ≤ prev)
    (hentries : Indexed (prev + 1) entries) (hlt : prev < d.log.length) (prevTerm commit : Int) :
    AppendsMatch d entries prev prevTerm commit := by
  intro conflictIndex conflictTerm hsuccess
  cases hconflict : d.conflictTerm prev prevTerm with
  | some term =>
      rw [appendEntries, hconflict] at hsuccess
      simp at hsuccess
  | none =>
      have hcast : ((prev + 1).toNat : Int) = prev + 1 := Int.toNat_of_nonneg (by omega)
      have hstart : (prev + 1).toNat ≤ d.log.length := by omega
      obtain ⟨written, hrun, hw⟩ := writeEntries_written d.log entries hstart
      rw [hcast] at hrun
      rw [appendEntries_log hconflict, hrun]
      refine ⟨?_, ?_, ?_, ?_, ?_⟩
      · rcases lt_or_ge prev 0 with hneg | hnonneg
        · exact Or.inl (by omega)
        · exact Or.inr (conflictTerm_none hconflict hnonneg hlt)
      · exact hw.indexed hlog (by rwa [hcast])
      · intro i entry hi
        exact hw.carries hi
      · intro j hj
        exact hw.kept_below hstart (by omega)
      · intro j old _ hj hdrop
        exact hw.conflict hj hdrop

/-- Behind its last entry the follower checks nothing and reports success. -/
theorem appendEntries_beyond (hlast : -1 ≤ d.lastApplied) (hge : (d.log.length : Int) ≤ prev)
    (prevTerm commit : Int) :
    (d.appendEntries entries prev prevTerm commit).2 = some (true, 0, 0) := by
  have hconflict : d.conflictTerm prev prevTerm = none := by
    rw [conflictTerm, if_neg (by omega)]
  rw [appendEntries, hconflict, writeEntries_append (by omega)]
  simp only [if_true]
  split
  · rw [finish, commitAt_fold (by simpa using hlast) (by omega)]
    rfl
  · rfl

/-- Log matching holds exactly where the entry the message follows is inside
the follower's log. -/
theorem appendEntries_match_iff (hlog : Indexed 0 d.log) (hprev : -1 ≤ prev)
    (hentries : Indexed (prev + 1) entries) (prevTerm commit : Int) :
    (prev < d.log.length → AppendsMatch d entries prev prevTerm commit) ∧
      (-1 ≤ d.lastApplied → AppendsMatch d entries prev prevTerm commit →
        prev < d.log.length) := by
  refine ⟨fun hlt => appendsMatch_of_lt hlog hprev hentries hlt prevTerm commit, ?_⟩
  intro hlast hmatch
  by_contra hge
  rw [not_lt] at hge
  have h := hmatch 0 0 (appendEntries_beyond hlast hge prevTerm commit)
  rcases h.anchored with hneg | ⟨entry, hget, -⟩
  · omega
  · rw [List.getElem?_eq_none (by omega)] at hget
    cases hget

/-- A node that holds nothing. -/
def fresh : DistributedStateMachine StateMap := init "b" ["a"] {}

def essay : Command := ⟨some "essay", some "create", none, none⟩

theorem appendEntries_match_first :
    (-1 < (fresh.log.length : Int) → AppendsMatch fresh [⟨1, 0, essay⟩] (-1) 0 0) ∧
      (-1 ≤ fresh.lastApplied → AppendsMatch fresh [⟨1, 0, essay⟩] (-1) 0 0 →
        -1 < (fresh.log.length : Int)) :=
  appendEntries_match_iff (Indexed.nil 0) (by decide) (Indexed.single 1 0 essay) 0 0

/-- An entry announced behind position 5 is taken into an empty log. -/
theorem match_fails_beyond :
    Indexed 0 fresh.log ∧ Indexed 6 [⟨1, 6, essay⟩] ∧
      ¬ AppendsMatch fresh [⟨1, 6, essay⟩] 5 1 0 := by
  refine ⟨Indexed.nil 0, Indexed.single 1 6 essay, ?_⟩
  intro hmatch
  have h := hmatch 0 0 (appendEntries_beyond (by decide) (by decide) 1 0)
  rcases h.anchored with hneg | ⟨entry, hget, -⟩
  · exact absurd hneg (by decide)
  · cases hget

end DistributedStateMachine

end Prodinamik.Raft
