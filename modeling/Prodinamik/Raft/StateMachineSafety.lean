import Prodinamik.Raft.ElectionSafety
import Prodinamik.Raft.LogSteps

namespace Prodinamik.Raft.StateMachineSafety

open Lib.Quorum Lib.TermLog Election ElectionSafety LogInvariant LogSteps
  DistributedStateMachine

/-- Between the two states node i applies the entry at index k of its log. -/
def Applies (s s' : ClusterState) (i : String) (k : Nat) (entry : LogEntry) : Prop :=
  (s.nodes i).lastApplied < k ∧ (k : Int) ≤ (s'.nodes i).lastApplied ∧
    (s'.nodes i).log[k]? = some entry

def AppliesDuring (s : ClusterState) : List Action → String → Nat → LogEntry → Prop
  | [], _, _, _ => False
  | action :: actions, i, k, entry =>
      Applies s (s.perform action) i k entry ∨ AppliesDuring (s.perform action) actions i k entry

/-- No two nodes apply different commands at one index, and an applied entry
is in the log of every leader whose election starts afterwards. -/
structure StateMachineSafe (C : Cluster) (actions : List Action) : Prop where
  agree : ∀ i ∈ C.ids, ∀ j ∈ C.ids, ∀ k entry entry', AppliesDuring C.start actions i k entry →
    AppliesDuring C.start actions j k entry' → entry.command = entry'.command
  leaders : ∀ first later, actions = first ++ later → ∀ i ∈ C.ids, ∀ k entry,
    AppliesDuring C.start first i k entry → ∀ l ∈ C.ids,
      ((C.start.run actions).nodes l).role = .leader →
      ((C.start.run first).nodes l).currentTerm < ((C.start.run actions).nodes l).currentTerm →
      ((C.start.run actions).nodes l).log[k]? = some entry

theorem appendEntries_applied {σ : Type} [StateStore σ] (d : DistributedStateMachine σ)
    (entries : List LogEntry) (prev term commit : Int) :
    (d.appendEntries entries prev term commit).1.lastApplied ≤
      max d.lastApplied (d.appendEntries entries prev term commit).1.commitIndex := by
  cases hconflict : d.conflictTerm prev term with
  | some t =>
      rw [appendEntries, hconflict]
      exact le_max_left _ _
  | none =>
      cases hwrite : writeEntries d.log (prev + 1) entries with
      | mk log flag =>
          cases flag with
          | false =>
              rw [appendEntries, hconflict, hwrite]
              exact le_max_left _ _
          | true =>
              exact (appendEntries_books d commit hconflict hwrite).applied

theorem deliver_applied {σ : Type} [StateStore σ] (d : DistributedStateMachine σ)
    (msg : RaftMessage) :
    (d.deliver msg).lastApplied ≤ max d.lastApplied (d.deliver msg).commitIndex := by
  obtain ⟨sender, term, data⟩ := msg
  cases data with
  | requestVote lastIndex lastTerm =>
      have hout := requestVote_outcome d term sender lastIndex lastTerm
      change (d.requestVote term sender lastIndex lastTerm).1.lastApplied ≤
        max d.lastApplied (d.requestVote term sender lastIndex lastTerm).1.commitIndex
      generalize d.requestVote term sender lastIndex lastTerm = r at hout ⊢
      cases hout <;> exact le_max_left _ _
  | appendEntries entries prev prevTerm commit =>
      exact appendEntries_applied d entries prev prevTerm commit
  | heartbeat commit =>
      exact (heartbeat_books d commit).applied
  | requestVoteResponse granted => exact le_max_left _ _
  | appendEntriesResponse success index term' => exact le_max_left _ _
  | heartbeatResponse ok => exact le_max_left _ _

/-- Whatever a step applies is committed. -/
theorem step_applied (s : ClusterState) (action : Action) (i : String) :
    ((s.perform action).nodes i).lastApplied ≤
      max (s.nodes i).lastApplied ((s.perform action).nodes i).commitIndex := by
  have hupdate : ∀ (p : String) (d : DistributedStateMachine StateMap),
      d.lastApplied ≤ max (s.nodes p).lastApplied d.commitIndex →
      (Function.update s.nodes p d i).lastApplied ≤
        max (s.nodes i).lastApplied (Function.update s.nodes p d i).commitIndex := by
    intro p d hd
    by_cases hi : i = p
    · subst hi
      rwa [Function.update_self]
    · rw [Function.update_of_ne hi]
      exact le_max_left _ _
  cases action with
  | standForElection j => exact hupdate j _ (le_max_left _ _)
  | askVote j =>
      simp only [ClusterState.perform]
      split
      · exact hupdate _ _ (deliver_applied _ _)
      · exact le_max_left _ _
  | askVoteUnanswered j =>
      simp only [ClusterState.perform]
      split <;> exact le_max_left _ _
  | countVotes j =>
      have hcount : ∀ votes, ((s.nodes j).countVotes votes).lastApplied ≤
          max (s.nodes j).lastApplied ((s.nodes j).countVotes votes).commitIndex := by
        intro votes
        rw [countVotes]
        split <;> exact le_max_left _ _
      simp only [ClusterState.perform]
      split
      · split <;> exact hupdate j _ (hcount _)
      · exact le_max_left _ _
  | deliver p msg => exact hupdate p _ (deliver_applied _ msg)
  | propose j command =>
      have hpropose : ((s.nodes j).propose command).1.lastApplied ≤
          max (s.nodes j).lastApplied ((s.nodes j).propose command).1.commitIndex := by
        by_cases hrole : (s.nodes j).role = .leader
        · exact (propose_books (s.nodes j) hrole command).applied
        · rw [propose, if_pos hrole]
          exact le_max_left _ _
      simp only [ClusterState.perform]
      split <;> exact hupdate j _ hpropose
  | ackEntry j index p =>
      exact hupdate j _ (ackEntry_books (s.nodes j) index p).applied
  | broadcastHeartbeat j => exact le_max_left _ _

/-- The entry at index k of a committed log. -/
def Chosen (C : Cluster) (h : History) (s : ClusterState) (k : Nat) (entry : LogEntry) : Prop :=
  ∃ term m, k ≤ m ∧ Committed C h s term m ∧ (h.leaderLog term)[k]? = some entry

section Runs

variable {C : Cluster} {h h' : History} {s s' : ClusterState} {k : Nat} {entry entry' : LogEntry}

theorem Chosen.mono (g : Grows h s h' s') (hc : Chosen C h s k entry) :
    Chosen C h' s' k entry := by
  obtain ⟨term, m, hkm, hcom, hk⟩ := hc
  exact ⟨term, m, hkm, hcom.mono g, prefix_getElem? (g.leaderLogs term) hk⟩

theorem Committed.chief (inv : LogInv C h s) {term : Int} {m : Nat}
    (hc : Committed C h s term m) : h.chief term ≠ none := by
  intro hnone
  obtain ⟨entry, hentry, -⟩ := hc.entry
  rw [inv.history.chiefless term hnone] at hentry
  simp at hentry

/-- The leaders of later terms have what was chosen. -/
theorem Chosen.inLeaderLog (inv : LogInv C h s) {term u : Int} {m : Nat} (hkm : k ≤ m)
    (hcom : Committed C h s term m) (hk : (h.leaderLog term)[k]? = some entry) (hu : term ≤ u)
    (hchief : h.chief u ≠ none) : (h.leaderLog u)[k]? = some entry := by
  rcases eq_or_lt_of_le hu with rfl | hlt
  · exact hk
  · have hpre := leaderLog_complete inv.election inv.history hcom hlt hchief
    apply prefix_getElem? hpre
    rw [List.getElem?_take_of_lt (by omega), hk]

theorem Chosen.unique (inv : LogInv C h s) (hc : Chosen C h s k entry)
    (hc' : Chosen C h s k entry') : entry = entry' := by
  obtain ⟨term, m, hkm, hcom, hk⟩ := hc
  obtain ⟨term', m', hkm', hcom', hk'⟩ := hc'
  apply Option.some_injective
  rcases le_total term term' with hle | hle
  · rw [← Chosen.inLeaderLog inv hkm hcom hk hle (Committed.chief inv hcom'), hk']
  · rw [← Chosen.inLeaderLog inv hkm' hcom' hk' hle (Committed.chief inv hcom), hk]

theorem chosen_of_applies (inv : LogInv C h' s') {action : Action} (hs : s' = s.perform action)
    {i : String} (ha : Applies s s' i k entry) : Chosen C h' s' k entry := by
  obtain ⟨hlt, hle, hentry⟩ := ha
  have happlied := step_applied s action i
  rw [← hs] at happlied
  obtain ⟨term, m, hkm, hcom, hpre⟩ := (inv.nodes i).covered k (by omega)
  refine ⟨term, m, hkm, hcom, ?_⟩
  obtain ⟨last, hlast, -⟩ := hcom.entry
  obtain ⟨hlen, -⟩ := List.getElem?_eq_some_iff.mp hlast
  have hin : k < (h'.leaderLog term).length := by omega
  have hget := prefix_getElem? hpre
    (by rw [List.getElem?_take_of_lt (Nat.lt_succ_self k), List.getElem?_eq_getElem hin])
  rw [hentry] at hget
  rw [List.getElem?_eq_getElem hin, hget]

theorem chosen_of_appliesDuring (inv : LogInv C h s) {actions : List Action}
    (hrun : s.AlongRun (fun s action => C.Enabled s action ∧ Sound C s action) actions)
    {i : String} (ha : AppliesDuring s actions i k entry) :
    Chosen C (h.after s actions) (s.run actions) k entry := by
  induction actions generalizing h s with
  | nil => cases ha
  | cons action actions ih =>
      obtain ⟨-, inv'⟩ := step_log inv hrun.1.1 hrun.1.2
      rcases ha with hnow | hlater
      · exact (chosen_of_applies inv' rfl hnow).mono (run_log inv' hrun.2).1
      · exact ih inv' hrun.2 hlater

/-- A node that was not yet in the term it now leads won that term after every
term with a chosen entry. -/
theorem term_lt_of_later (inv : LogInv C h s) (inv' : LogInv C h' s') (g : Grows h s h' s')
    {term : Int} {m : Nat} (hcom : Committed C h s term m) {l : String}
    (hlead : (s'.nodes l).role = .leader)
    (hlater : (s.nodes l).currentTerm < (s'.nodes l).currentTerm) :
    term < (s'.nodes l).currentTerm := by
  by_contra hge
  obtain ⟨c, hc⟩ := Option.ne_none_iff_exists'.mp (Committed.chief inv hcom)
  obtain ⟨q, hq, -, hvotes⟩ := inv.election.elected term c hc
  have hchief : h'.chief (s'.nodes l).currentTerm = some l := inv'.election.leader l hlead
  obtain ⟨q', hq', -, hvotes'⟩ := inv'.election.elected _ l hchief
  obtain ⟨v, hv⟩ := hq.inter_nonempty hq'
  obtain ⟨hvq, hvq'⟩ := Finset.mem_inter.mp hv
  have hterm : term ≤ (s.nodes v).currentTerm := inv.election.bounded v term c (hvotes v hvq)
  cases hold : h.vote v (s'.nodes l).currentTerm with
  | some x =>
      have hkept := (g.votes v _ x hold).1
      obtain rfl : x = l := Option.some_injective _ (hkept.symm.trans (hvotes' v hvq'))
      have hown := inv.history.stood v _ x hold
      have hle : (s'.nodes x).currentTerm ≤ (s.nodes x).currentTerm :=
        inv.election.bounded x _ x hown
      omega
  | none =>
      have hnew := (g.newVotes v _ hold (Option.ne_none_iff_exists'.mpr ⟨l, hvotes' v hvq'⟩)).1
      have heq : term = (s'.nodes l).currentTerm := by omega
      rw [← heq, hvotes v hvq] at hold
      cases hold

end Runs

theorem start_log {C : Cluster} (hfresh : ∀ i, loadLog (C.stateDirs i) = []) :
    LogInv C {} C.start where
  election := start_inv C
  history := by
    refine ⟨fun _ => traced_nil, ?_, fun _ _ => rfl, ?_, fun _ _ => traced_nil, ?_, ?_, ?_⟩
    · intro t entry he
      cases he
    · intro t c hc
      cases hc
    · intro v t c hv
      cases hv
    · intro v t c hv
      cases hv
    · intro t c hc
      cases hc
  nodes := by
    intro i
    have hlog : (C.start.nodes i).log = [] := hfresh i
    refine ⟨?_, ?_, le_rfl, ?_, covered_neg, ?_, ?_⟩
    · rw [hlog]
      exact traced_nil
    · rw [hlog]
      intro entry he
      cases he
    · intro hrole
      cases hrole
    · intro index v hv
      cases hv
    · intro hopen
      exact absurd rfl hopen
  messages := by
    intro p msg hmem
    cases hmem

/-- Nodes that start without a log, in a run whose steps all do what the code
leaves unchecked. -/
theorem stateMachineSafe_of_sound {C : Cluster} (hfresh : ∀ i, loadLog (C.stateDirs i) = [])
    {actions : List Action}
    (hrun : C.start.AlongRun (fun s action => C.Enabled s action ∧ Sound C s action) actions) :
    StateMachineSafe C actions where
  agree := by
    intro i _ j _ k entry entry' ha ha'
    have inv := (run_log (start_log hfresh) hrun).2
    have hc := chosen_of_appliesDuring (start_log hfresh) hrun ha
    have hc' := chosen_of_appliesDuring (start_log hfresh) hrun ha'
    rw [hc.unique inv hc']
  leaders := by
    rintro first later rfl i _ k entry ha l _ hlead hlater
    obtain ⟨hfirst, hrest⟩ := ClusterState.alongRun_append.mp hrun
    have inv := (run_log (start_log hfresh) hfirst).2
    obtain ⟨g, inv'⟩ := run_log inv hrest
    have hall : C.start.run (first ++ later) = (C.start.run first).run later := List.foldl_append
    rw [hall] at hlead hlater ⊢
    obtain ⟨term, m, hkm, hcom, hk⟩ := chosen_of_appliesDuring (start_log hfresh) hfirst ha
    have hlt := term_lt_of_later inv inv' g hcom hlead hlater
    have hchief : _ = some l := inv'.election.leader l hlead
    rw [← (inv'.nodes l).leader hlead]
    exact Chosen.inLeaderLog inv' hkm (hcom.mono g) (prefix_getElem? (g.leaderLogs term) hk)
      (le_of_lt hlt) (Option.ne_none_iff_exists'.mpr ⟨l, hchief⟩)

def trio : Cluster where
  ids := ["node-1", "node-2", "node-3"]
  peers := fun i => ["node-1", "node-2", "node-3"].erase i
  stateDirs := fun _ => {}
  nodup := by decide
  others := by decide

def create : Command := { slug := some "a", type := some "create" }

def archive : Command := { slug := some "a", type := some "archive" }

def firstAppend : RaftMessage := ⟨"node-1", 1, .appendEntries [⟨1, 0, create⟩] 0 1 (-1)⟩

/-- One command, replicated once and acknowledged, reaches a second node. -/
def replicateOnce : List Action :=
  elect trio "node-1" ["node-2"] ++ [.propose "node-1" create, .deliver "node-2" firstAppend,
    .ackEntry "node-1" 0 "node-2", .broadcastHeartbeat "node-1",
    .deliver "node-2" ⟨"node-1", 1, .heartbeat 0⟩]

theorem stateMachineSafe_replicateOnce : StateMachineSafe trio replicateOnce :=
  stateMachineSafe_of_sound (fun _ => rfl) (by decide)

/-- The same message delivered twice puts its command at two indices. A
heartbeat then commits the second one at node-2, where node-1 has another
command. -/
def duplicated : List Action :=
  elect trio "node-1" ["node-2"] ++ [.propose "node-1" create, .deliver "node-2" firstAppend,
    .deliver "node-2" firstAppend, .ackEntry "node-1" 0 "node-2", .propose "node-1" archive,
    .deliver "node-3" ⟨"node-1", 1, .appendEntries [⟨1, 0, create⟩, ⟨1, 1, archive⟩] 1 1 0⟩,
    .ackEntry "node-1" 1 "node-3", .broadcastHeartbeat "node-1",
    .deliver "node-2" ⟨"node-1", 1, .heartbeat 1⟩]

instance decidableAppliesDuring (i : String) (k : Nat) (entry : LogEntry) :
    ∀ (s : ClusterState) (actions : List Action), Decidable (AppliesDuring s actions i k entry)
  | _, [] => inferInstanceAs (Decidable False)
  | s, action :: actions =>
      have := decidableAppliesDuring i k entry (s.perform action) actions
      inferInstanceAs (Decidable (((s.nodes i).lastApplied < k ∧
        (k : Int) ≤ ((s.perform action).nodes i).lastApplied ∧
        ((s.perform action).nodes i).log[k]? = some entry) ∨
        AppliesDuring (s.perform action) actions i k entry))

theorem not_stateMachineSafe : ¬ ∀ (C : Cluster) (actions : List Action),
    (∀ i, loadLog (C.stateDirs i) = []) → C.start.AlongRun C.Enabled actions →
    StateMachineSafe C actions := by
  intro h
  have hsafe := h trio duplicated (fun _ => rfl) (by decide)
  have hsame := hsafe.agree "node-1" (by decide) "node-2" (by decide) 1 ⟨1, 1, archive⟩
    ⟨1, 0, create⟩ (by decide) (by decide)
  exact absurd hsame (by decide)

end Prodinamik.Raft.StateMachineSafety
