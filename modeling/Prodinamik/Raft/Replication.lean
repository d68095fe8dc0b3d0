import Prodinamik.Raft.Transport

namespace Prodinamik.Raft.Replication

open Lib DistributedStateMachine

variable {σ τ : Type} [StateStore σ] [StateStore τ]

/-- A follower's log is compared with the leader's after every delivery. Each
round is one propose call, with the number of times its message arrives. -/
def PrefixAfterEach (leader : DistributedStateMachine σ) (follower : DistributedStateMachine τ) :
    List (Command × Nat) → Prop
  | [] => True
  | (command, deliveries) :: rounds =>
      let leader' := (leader.propose command).1
      let receive := fun d : DistributedStateMachine τ => d.deliver leader'.doReplicate
      (∀ k, 0 < k → k ≤ deliveries → (receive^[k] follower).log <+: leader'.log) ∧
        PrefixAfterEach leader' (receive^[deliveries] follower) rounds

def deliveries : List (Command × Nat) → Nat
  | [] => 0
  | (_, n) :: rounds => n + deliveries rounds

omit [StateStore σ] in
theorem get_last {d : DistributedStateMachine σ} (h : d.log ≠ []) :
    ∃ entry, PyList.get d.log (d.log.length - 1) = some entry ∧ entry.term = d.lastLogTerm := by
  have hlen : 0 < d.log.length := List.length_pos_iff.mpr h
  refine ⟨d.log.getLast h, ?_, ?_⟩
  · have hcast : (d.log.length : Int) - 1 = ((d.log.length - 1 : Nat) : Int) := by omega
    rw [hcast, PyList.get_natCast, List.getLast_eq_getElem, List.getElem?_eq_getElem (by omega)]
  · rw [lastLogTerm, List.getLast?_eq_some_getLast h]

omit [StateStore σ] in
/-- The message of a leader with a nonempty log puts that whole log behind
whatever the follower holds of it already. -/
theorem deliver_log {leader : DistributedStateMachine σ} {follower : DistributedStateMachine τ}
    (hne : leader.log ≠ []) (hpre : follower.log <+: leader.log) :
    (follower.deliver leader.doReplicate).log = follower.log ++ leader.log := by
  have hlen := hpre.length_le
  have hnone : follower.conflictTerm (leader.log.length - 1) leader.lastLogTerm = none := by
    rw [conflictTerm]
    split
    · rename_i hin
      have heq : follower.log = leader.log := hpre.eq_of_length (by omega)
      obtain ⟨entry, hget, hterm⟩ := get_last hne
      rw [heq, hget]
      simp [hterm]
    · rfl
  change (follower.appendEntries leader.log (leader.log.length - 1) leader.lastLogTerm
    leader.commitIndex).1.log = _
  rw [appendEntries_log hnone, writeEntries_append (by omega)]

theorem not_prefix_of_append {follower leader : List LogEntry} (hf : follower ≠ []) :
    ¬ follower ++ leader <+: leader := by
  intro h
  have hlen := h.length_le
  have hpos := List.length_pos_iff.mpr hf
  rw [List.length_append] at hlen
  omega

theorem prefixAfterEach_of_nonempty {leader : DistributedStateMachine σ}
    {follower : DistributedStateMachine τ} (hrole : leader.role = .leader)
    (hf : follower.log ≠ []) (hpre : follower.log <+: leader.log) (rounds : List (Command × Nat)) :
    PrefixAfterEach leader follower rounds ↔ deliveries rounds = 0 := by
  induction rounds generalizing leader with
  | nil => simp [PrefixAfterEach, deliveries]
  | cons round rounds ih =>
      obtain ⟨command, n⟩ := round
      have hlog := propose_log hrole command
      have hpre' : follower.log <+: (leader.propose command).1.log :=
        hlog ▸ hpre.trans (List.prefix_append _ _)
      have hstep := ih (propose_role hrole command) hpre'
      simp only [PrefixAfterEach, deliveries] at hstep ⊢
      cases n with
      | zero =>
          rw [Function.iterate_zero_apply, hstep, Nat.zero_add, and_iff_right_iff_imp]
          intro _ k hk hk'
          omega
      | succ n =>
          refine iff_of_false (fun h => ?_) (by omega)
          have hone := h.1 1 Nat.one_pos (by omega)
          rw [Function.iterate_one, deliver_log (by simp [hlog]) hpre'] at hone
          exact not_prefix_of_append hf hone

/-- The follower's log stays a prefix of the leader's exactly as long as at
most one message is delivered in the whole run. -/
theorem prefixAfterEach_iff {leader : DistributedStateMachine σ}
    {follower : DistributedStateMachine τ} (hrole : leader.role = .leader)
    (hf : follower.log = []) (rounds : List (Command × Nat)) :
    PrefixAfterEach leader follower rounds ↔ deliveries rounds ≤ 1 := by
  induction rounds generalizing leader with
  | nil => simp [PrefixAfterEach, deliveries]
  | cons round rounds ih =>
      obtain ⟨command, n⟩ := round
      have hlog := propose_log hrole command
      have hrole' := propose_role hrole command
      have hne : (leader.propose command).1.log ≠ [] := by simp [hlog]
      have hpre : follower.log <+: (leader.propose command).1.log := by rw [hf]; exact List.nil_prefix
      have hfirst : (follower.deliver (leader.propose command).1.doReplicate).log =
          (leader.propose command).1.log := by
        rw [deliver_log hne hpre, hf, List.nil_append]
      have hsame : (follower.deliver (leader.propose command).1.doReplicate).log <+:
          (leader.propose command).1.log := by rw [hfirst]
      simp only [PrefixAfterEach, deliveries]
      rcases n with _ | _ | n
      · have hstep := ih hrole'
        rw [Function.iterate_zero_apply, hstep, Nat.zero_add, and_iff_right_iff_imp]
        intro _ k hk hk'
        omega
      · have hstep := prefixAfterEach_of_nonempty hrole' (by rw [hfirst]; exact hne) hsame rounds
        rw [Function.iterate_one, hstep]
        constructor
        · rintro ⟨-, h⟩
          omega
        · intro h
          refine ⟨?_, by omega⟩
          intro k hk hk'
          obtain rfl : k = 1 := by omega
          rw [Function.iterate_one, hfirst]
      · refine iff_of_false (fun h => ?_) (by omega)
        have htwo := h.1 2 Nat.two_pos (by omega)
        rw [Function.iterate_succ_apply, Function.iterate_one,
          deliver_log hne hsame] at htwo
        exact not_prefix_of_append (by rw [hfirst]; exact hne) htwo

def exampleLeader : DistributedStateMachine StateMap :=
  { init "node-1" ["node-2"] {} with role := .leader, currentTerm := 1 }

def exampleFollower : DistributedStateMachine StateMap := init "node-2" ["node-1"] {}

theorem prefixAfterEach_one_delivery :
    PrefixAfterEach exampleLeader exampleFollower
      [({ slug := some "a", type := some "create" }, 0),
        ({ slug := some "a", type := some "archive" }, 1)] :=
  (prefixAfterEach_iff rfl rfl _).mpr (by decide)

/-- Two proposals, each message delivered once: the follower ends up with the
first command at two positions. -/
theorem not_prefixAfterEach :
    ¬ ∀ (leader follower : DistributedStateMachine StateMap) (rounds : List (Command × Nat)),
      leader.role = .leader → follower.log = [] → PrefixAfterEach leader follower rounds := by
  intro h
  have hrun := h exampleLeader exampleFollower
    [({ slug := some "a", type := some "create" }, 1),
      ({ slug := some "a", type := some "archive" }, 1)] rfl rfl
  exact absurd (hrun.2.1 1 (by decide) (by decide)) (by decide)

end Prodinamik.Raft.Replication
