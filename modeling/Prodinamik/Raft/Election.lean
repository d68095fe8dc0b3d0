import Mathlib.Data.Finset.Dedup
import Prodinamik.Lib.TermLog
import Prodinamik.Raft.Cluster

namespace Prodinamik.Raft.Election

open Lib.Quorum DistributedStateMachine

/-- What the elections of a run have left behind: the votes of each term with
the log the voter had at first, the node that won a term and the log it leads
with. -/
structure History where
  vote : String → Int → Option String := fun _ _ => none
  seen : String → Int → List LogEntry := fun _ _ => []
  chief : Int → Option String := fun _ => none
  leaderLog : Int → List LogEntry := fun _ => []

namespace History

def castVote (h : History) (v : String) (term : Int) (candidate : String) (log : List LogEntry) :
    History :=
  { h with
    vote := Function.update h.vote v (Function.update (h.vote v) term (some candidate))
    seen := if h.vote v term = none then
        Function.update h.seen v (Function.update (h.seen v) term log)
      else h.seen }

def crown (h : History) (term : Int) (i : String) (log : List LogEntry) : History :=
  { h with
    chief := Function.update h.chief term (some i)
    leaderLog := Function.update h.leaderLog term log }

def receive (h : History) (s : ClusterState) (p : String) (msg : RaftMessage) : History :=
  if voteGranted ((s.nodes p).handleRaftMessage msg).2 then
    h.castVote p msg.term msg.senderId (s.nodes p).log
  else h

def record (h : History) (s : ClusterState) : Action → History
  | .standForElection i => h.castVote i ((s.nodes i).currentTerm + 1) i (s.nodes i).log
  | .askVote i =>
      match s.elections i with
      | some ⟨p :: _, _⟩ => h.receive s p (s.nodes i).checkVote
      | _ => h
  | .countVotes i =>
      match s.elections i with
      | some ⟨_, votes⟩ =>
          if votes > (s.nodes i).peers.length / 2 then
            h.crown (s.nodes i).currentTerm i (s.nodes i).log
          else h
      | none => h
  | .deliver p msg => h.receive s p msg
  | .propose i command =>
      if (s.nodes i).role = .leader then
        { h with
          leaderLog := Function.update h.leaderLog (s.nodes i).currentTerm
            ((s.nodes i).propose command).1.log }
      else h
  | _ => h

def after (h : History) (s : ClusterState) : List Action → History
  | [] => h
  | action :: actions => (h.record s action).after (s.perform action) actions

end History

/-- What a message does to the standing of the node that handles it. -/
inductive Received (st : Standing) (term : Int) (sender : String) : Standing → Bool → Prop
  | kept : Received st term sender st false
  | steppedDown : st.currentTerm < term → Received st term sender
      { st with role := .follower, currentTerm := term, votedFor := none } false
  | granted : term = st.currentTerm → (st.votedFor = none ∨ st.votedFor = some sender) →
      Received st term sender { st with votedFor := some sender } true
  | grantedAnew : st.currentTerm < term → Received st term sender
      { st with role := .follower, currentTerm := term, votedFor := some sender } true

theorem notGranted_appendEntries {σ : Type} [StateStore σ] (d : DistributedStateMachine σ)
    (sender : String) (term prev prevTerm commit : Int) (entries : List LogEntry) :
    voteGranted (d.handleRaftMessage
      ⟨sender, term, .appendEntries entries prev prevTerm commit⟩).2 = false := by
  simp only [handleRaftMessage]
  cases (d.appendEntries entries prev prevTerm commit).2 <;> rfl

theorem deliver_received {σ : Type} [StateStore σ] (d : DistributedStateMachine σ)
    (msg : RaftMessage) :
    Received d.standing msg.term msg.senderId (d.deliver msg).standing
      (voteGranted (d.handleRaftMessage msg).2) := by
  obtain ⟨sender, term, data⟩ := msg
  cases data with
  | requestVote lastIndex lastTerm =>
      have hout := requestVote_outcome d term sender lastIndex lastTerm
      change Received _ _ _ (d.requestVote term sender lastIndex lastTerm).1.standing
        (d.requestVote term sender lastIndex lastTerm).2
      generalize d.requestVote term sender lastIndex lastTerm = r at hout ⊢
      cases hout with
      | refused => exact .kept
      | steppedDown h => exact .steppedDown h
      | granted ht hv _ => exact .granted ht hv
      | grantedAnew h _ => exact .grantedAnew h
  | appendEntries entries prev prevTerm commit =>
      have hst := appendEntries_standing d entries prev prevTerm commit
      change Received _ _ _ (d.appendEntries entries prev prevTerm commit).1.standing _
      rw [hst, notGranted_appendEntries]
      exact .kept
  | heartbeat commit =>
      have hst := heartbeat_standing d commit
      have hno : voteGranted (d.handleRaftMessage ⟨sender, term, .heartbeat commit⟩).2 = false := by
        simp only [handleRaftMessage]
        split <;> rfl
      change Received _ _ _ (d.heartbeat commit).1.standing _
      rw [hst, hno]
      exact .kept
  | requestVoteResponse granted => exact .kept
  | appendEntriesResponse success index term' => exact .kept
  | heartbeatResponse ok => exact .kept

/-- A become_candidate call under way at node i. -/
structure Open (C : Cluster) (h : History) (st : Standing) (i : String) (ballot : Ballot) :
    Prop where
  candidate : st.role = .candidate
  notChief : h.chief st.currentTerm ≠ some i
  nodup : ballot.awaiting.Nodup
  members : ∀ p ∈ ballot.awaiting, p ∈ C.ids
  voters : ∃ q : Finset String, q ⊆ C.ids.toFinset ∧ q.card = ballot.votes ∧ i ∈ q ∧
    ∀ v ∈ q, v ∉ ballot.awaiting ∧ h.vote v st.currentTerm = some i

structure ElectionInv (C : Cluster) (h : History) (st : String → Standing)
    (elections : String → Option Ballot) : Prop where
  identity : ∀ i, (st i).nodeId = i ∧ (st i).peers = C.peers i
  bounded : ∀ v term c, h.vote v term = some c → term ≤ (st v).currentTerm
  current : ∀ v, (st v).votedFor = h.vote v (st v).currentTerm
  ballots : ∀ i ballot, elections i = some ballot → Open C h (st i) i ballot
  elected : ∀ term c, h.chief term = some c →
    ∃ q, IsMajority C.ids.toFinset q ∧ c ∈ q ∧ ∀ v ∈ q, h.vote v term = some c
  leader : ∀ i, (st i).role = .leader → h.chief (st i).currentTerm = some i

namespace ElectionInv

variable {C : Cluster} {h : History} {st : String → Standing}
  {elections : String → Option Ballot}

theorem chief_bounded (inv : ElectionInv C h st elections) {term : Int} {c : String}
    (hc : h.chief term = some c) : term ≤ (st c).currentTerm := by
  obtain ⟨q, -, hcq, hvotes⟩ := inv.elected term c hc
  exact inv.bounded c term c (hvotes c hcq)

end ElectionInv

/-- A vote that a node casts where it had cast none, or the same, takes no
other vote away. -/
theorem castVote_mono {h : History} {p c : String} {term : Int} {log : List LogEntry}
    (hfree : h.vote p term = none ∨ h.vote p term = some c) {v x : String} {t : Int}
    (hv : h.vote v t = some x) : (h.castVote p term c log).vote v t = some x := by
  by_cases hp : v = p
  · subst hp
    by_cases ht : t = term
    · subst ht
      rw [hv] at hfree
      simpa [History.castVote, eq_comm] using hfree
    · simpa [History.castVote, ht] using hv
  · simpa [History.castVote, hp] using hv

theorem castVote_self (h : History) (p c : String) (term : Int) (log : List LogEntry) :
    (h.castVote p term c log).vote p term = some c := by
  simp [History.castVote]

theorem castVote_other (h : History) {p c v : String} {term t : Int} (log : List LogEntry)
    (hne : v ≠ p ∨ t ≠ term) : (h.castVote p term c log).vote v t = h.vote v t := by
  by_cases hp : v = p
  · subst hp
    simp [History.castVote, hne.resolve_left (by simp)]
  · simp [History.castVote, hp]

theorem castVote_seen_kept (h : History) {p c v : String} {term t : Int} (log : List LogEntry)
    (hvote : h.vote v t ≠ none) : (h.castVote p term c log).seen v t = h.seen v t := by
  rw [History.castVote]
  split
  · rename_i hnone
    by_cases hp : v = p
    · subst hp
      have ht : t ≠ term := by
        rintro rfl
        exact hvote hnone
      simp [ht]
    · simp [hp]
  · rfl

theorem castVote_seen_new (h : History) {p : String} {term : Int} (c : String)
    (log : List LogEntry) (hnone : h.vote p term = none) :
    (h.castVote p term c log).seen p term = log := by
  simp [History.castVote, hnone]

theorem castVote_seen_other (h : History) {p c v : String} {term t : Int} (log : List LogEntry)
    (hne : v ≠ p ∨ t ≠ term) : (h.castVote p term c log).seen v t = h.seen v t := by
  rw [History.castVote]
  split
  · by_cases hp : v = p
    · subst hp
      simp [hne.resolve_left (by simp)]
    · simp [hp]
  · rfl

/-- Votes that stay, at the same terms, keep an open election open. -/
theorem Open.mono {C : Cluster} {h h' : History} {st : Standing} {i : String} {ballot : Ballot}
    (ho : Open C h st i ballot) (hchief : h'.chief = h.chief)
    (hvote : ∀ v x t, h.vote v t = some x → h'.vote v t = some x) : Open C h' st i ballot where
  candidate := ho.candidate
  notChief := hchief ▸ ho.notChief
  nodup := ho.nodup
  members := ho.members
  voters := by
    obtain ⟨q, hsub, hcard, hi, hq⟩ := ho.voters
    exact ⟨q, hsub, hcard, hi, fun v hv => ⟨(hq v hv).1, hvote v i _ (hq v hv).2⟩⟩

namespace ElectionInv

variable {C : Cluster} {h h' : History} {st : String → Standing}
  {elections elections' : String → Option Ballot} {p : String} {st' : Standing}

/-- One node moves on, and no vote is taken back. -/
theorem replace (inv : ElectionInv C h st elections)
    (hid : st'.nodeId = (st p).nodeId ∧ st'.peers = (st p).peers)
    (hterm : (st p).currentTerm ≤ st'.currentTerm) (hchief : h'.chief = h.chief)
    (hmono : ∀ v x t, h.vote v t = some x → h'.vote v t = some x)
    (hother : ∀ v, v ≠ p → h'.vote v = h.vote v)
    (hbound : ∀ t c, h'.vote p t = some c → t ≤ st'.currentTerm)
    (hcur : st'.votedFor = h'.vote p st'.currentTerm)
    (hleader : st'.role = .leader →
      (st p).role = .leader ∧ st'.currentTerm = (st p).currentTerm)
    (hsame : ∀ v, v ≠ p → elections' v = elections v)
    (hopen : ∀ ballot, elections' p = some ballot → Open C h' st' p ballot) :
    ElectionInv C h' (Function.update st p st') elections' where
  identity := by
    intro v
    by_cases hv : v = p
    · subst hv
      rw [Function.update_self, hid.1, hid.2]
      exact inv.identity v
    · rw [Function.update_of_ne hv]
      exact inv.identity v
  bounded := by
    intro v t c hvote
    by_cases hv : v = p
    · subst hv
      rw [Function.update_self]
      exact hbound t c hvote
    · rw [Function.update_of_ne hv]
      rw [hother v hv] at hvote
      exact inv.bounded v t c hvote
  current := by
    intro v
    by_cases hv : v = p
    · subst hv
      rw [Function.update_self]
      exact hcur
    · rw [Function.update_of_ne hv, hother v hv]
      exact inv.current v
  ballots := by
    intro v ballot hb
    by_cases hv : v = p
    · subst hv
      rw [Function.update_self]
      exact hopen ballot hb
    · rw [Function.update_of_ne hv]
      rw [hsame v hv] at hb
      exact (inv.ballots v ballot hb).mono hchief hmono
  elected := by
    intro t c hc
    rw [hchief] at hc
    obtain ⟨q, hq, hcq, hvotes⟩ := inv.elected t c hc
    exact ⟨q, hq, hcq, fun v hv => hmono v c t (hvotes v hv)⟩
  leader := by
    intro v hrole
    by_cases hv : v = p
    · subst hv
      rw [Function.update_self] at hrole ⊢
      obtain ⟨hold, hsameTerm⟩ := hleader hrole
      rw [hchief, hsameTerm]
      exact inv.leader v hold
    · rw [Function.update_of_ne hv] at hrole ⊢
      rw [hchief]
      exact inv.leader v hrole

/-- A vote in a term that the voter has reached only now, or a second one for
the same candidate. -/
theorem cast (inv : ElectionInv C h st elections) {term : Int} {c : String}
    (hfree : (st p).currentTerm < term ∨
      (term = (st p).currentTerm ∧ ((st p).votedFor = none ∨ (st p).votedFor = some c))) :
    h.vote p term = none ∨ h.vote p term = some c := by
  rcases hfree with hlt | ⟨rfl, hv⟩
  · left
    rw [Option.eq_none_iff_forall_ne_some]
    intro x hx
    have := inv.bounded p term x hx
    omega
  · rwa [inv.current p] at hv

theorem replaceCast (inv : ElectionInv C h st elections) {term : Int} {c : String}
    {log : List LogEntry} (hid : st'.nodeId = (st p).nodeId ∧ st'.peers = (st p).peers)
    (hfree : (st p).currentTerm < term ∨
      (term = (st p).currentTerm ∧ ((st p).votedFor = none ∨ (st p).votedFor = some c)))
    (hterm : st'.currentTerm = term) (hvoted : st'.votedFor = some c)
    (hleader : st'.role = .leader → (st p).role = .leader ∧ term = (st p).currentTerm)
    (hsame : ∀ v, v ≠ p → elections' v = elections v)
    (hopen : ∀ ballot, elections' p = some ballot →
      Open C (h.castVote p term c log) st' p ballot) :
    ElectionInv C (h.castVote p term c log) (Function.update st p st') elections' := by
  have hge : (st p).currentTerm ≤ term := by omega
  refine inv.replace hid (by omega) rfl (fun v x t => castVote_mono (inv.cast hfree))
    ?_ ?_ ?_ (by rwa [hterm]) hsame hopen
  · intro v hv
    funext t
    exact castVote_other h log (Or.inl hv)
  · intro t x hx
    by_cases ht : t = term
    · omega
    · rw [castVote_other h log (Or.inr ht)] at hx
      have := inv.bounded p t x hx
      omega
  · rw [hvoted, hterm, castVote_self]

theorem receive (inv : ElectionInv C h st elections) {term : Int} {sender : String}
    {granted : Bool} {log : List LogEntry} (hp : elections p = none)
    (hr : Received (st p) term sender st' granted) :
    ElectionInv C (if granted then h.castVote p term sender log else h)
      (Function.update st p st') elections := by
  cases hr with
  | kept => simpa using inv
  | steppedDown hlt =>
      rw [if_neg Bool.false_ne_true]
      refine inv.replace ⟨rfl, rfl⟩ (le_of_lt hlt) rfl (fun v x t => id) (fun v _ => rfl)
        ?_ ?_ ?_ (fun v _ => rfl) ?_
      · intro t c hvote
        exact le_of_lt ((inv.bounded p t c hvote).trans_lt hlt)
      · refine (Option.eq_none_iff_forall_ne_some.mpr ?_).symm
        intro x hx
        have := inv.bounded p term x hx
        omega
      · intro hrole
        cases hrole
      · intro ballot hb
        rw [hp] at hb
        cases hb
  | granted hterm hvoted =>
      rw [if_pos rfl]
      refine inv.replaceCast ⟨rfl, rfl⟩ (Or.inr ⟨hterm, hvoted⟩) hterm.symm rfl
        (fun hrole => ⟨hrole, hterm⟩) (fun v _ => rfl) ?_
      intro ballot hb
      rw [hp] at hb
      cases hb
  | grantedAnew hlt =>
      rw [if_pos rfl]
      refine inv.replaceCast ⟨rfl, rfl⟩ (Or.inl hlt) rfl rfl ?_ (fun v _ => rfl) ?_
      · intro hrole
        cases hrole
      · intro ballot hb
        rw [hp] at hb
        cases hb

theorem stand (inv : ElectionInv C h st elections) (log : List LogEntry) (hp : p ∈ C.ids) :
    ElectionInv C (h.castVote p ((st p).currentTerm + 1) p log)
      (Function.update st p
        { st p with role := .candidate, currentTerm := (st p).currentTerm + 1, votedFor := some p })
      (Function.update elections p (some ⟨(st p).peers, 1⟩)) := by
  refine inv.replaceCast ⟨rfl, rfl⟩ (Or.inl (by omega)) rfl rfl ?_ ?_ ?_
  · intro hrole
    cases hrole
  · intro v hv
    exact Function.update_of_ne hv _ _
  · intro ballot hb
    rw [Function.update_self] at hb
    cases hb
    have hpeers := C.others p hp
    rw [← (inv.identity p).2] at hpeers
    have hmem : ∀ v, v ∈ (st p).peers ↔ v ∈ C.ids.erase p := fun v => hpeers.mem_iff
    refine ⟨rfl, ?_, hpeers.nodup_iff.mpr (C.nodup.erase p), ?_, {p}, ?_, rfl, by simp, ?_⟩
    · intro hc
      have := inv.chief_bounded hc
      simp only at this
      omega
    · intro v hv
      exact List.mem_of_mem_erase ((hmem v).mp hv)
    · simpa using hp
    · intro v hv
      obtain rfl := Finset.mem_singleton.mp hv
      refine ⟨?_, castVote_self _ _ _ _ _⟩
      simp only [hmem, C.nodup.mem_erase_iff]
      tauto

/-- The next peer has answered, or has not. -/
theorem ask (inv : ElectionInv C h st elections) {i : String} {rest : List String} {votes : Nat}
    {granted : Bool} (hi : elections i = some ⟨p :: rest, votes⟩)
    (hgrant : granted = true → h.vote p (st i).currentTerm = some i) :
    ElectionInv C h st
      (Function.update elections i (some ⟨rest, if granted then votes + 1 else votes⟩)) := by
  have ho := inv.ballots i _ hi
  rw [← Function.update_eq_self i st]
  refine inv.replace ⟨rfl, rfl⟩ le_rfl rfl (fun v x t => id) (fun v _ => rfl)
    (fun t c => inv.bounded i t c) (inv.current i) (fun hrole => ⟨hrole, rfl⟩) ?_ ?_
  · intro v hv
    exact Function.update_of_ne hv _ _
  · intro ballot hb
    rw [Function.update_self] at hb
    cases hb
    obtain ⟨hpr, hnd⟩ := List.nodup_cons.mp ho.nodup
    obtain ⟨q, hsub, hcard, hiq, hq⟩ := ho.voters
    refine ⟨ho.candidate, ho.notChief, hnd, fun v hv => ho.members v (List.mem_cons_of_mem p hv), ?_⟩
    cases granted with
    | false =>
        refine ⟨q, hsub, hcard, hiq, fun v hv => ⟨?_, (hq v hv).2⟩⟩
        exact fun hmem => (hq v hv).1 (List.mem_cons_of_mem p hmem)
    | true =>
        have hpq : p ∉ q := fun hmem => (hq p hmem).1 List.mem_cons_self
        refine ⟨insert p q, ?_, ?_, Finset.mem_insert_of_mem hiq, ?_⟩
        · apply Finset.insert_subset _ hsub
          exact List.mem_toFinset.mpr (ho.members p List.mem_cons_self)
        · rw [Finset.card_insert_of_notMem hpq, hcard]
          rfl
        · intro v hv
          rcases Finset.mem_insert.mp hv with rfl | hv
          · exact ⟨hpr, hgrant rfl⟩
          · exact ⟨fun hmem => (hq v hv).1 (List.mem_cons_of_mem p hmem), (hq v hv).2⟩

theorem lose (inv : ElectionInv C h st elections) (p : String) :
    ElectionInv C h st (Function.update elections p none) := by
  rw [← Function.update_eq_self p st]
  refine inv.replace ⟨rfl, rfl⟩ le_rfl rfl (fun v x t => id) (fun v _ => rfl)
    (fun t c => inv.bounded p t c) (inv.current p) (fun hrole => ⟨hrole, rfl⟩) ?_ ?_
  · intro v hv
    exact Function.update_of_ne hv _ _
  · intro ballot hb
    rw [Function.update_self] at hb
    cases hb

/-- A candidate with votes of more than half of the nodes is the first winner
of its term. -/
theorem noChief (inv : ElectionInv C h st elections) {ballot : Ballot}
    (hp : elections p = some ballot) (hvotes : C.ids.length < 2 * ballot.votes) :
    h.chief (st p).currentTerm = none := by
  have ho := inv.ballots p ballot hp
  obtain ⟨q, hsub, hcard, -, hq⟩ := ho.voters
  rw [Option.eq_none_iff_forall_ne_some]
  intro c hc
  obtain ⟨q', hq', -, hvotes'⟩ := inv.elected _ c hc
  have hmaj : IsMajority C.ids.toFinset q :=
    ⟨hsub, by rw [List.toFinset_card_of_nodup C.nodup, hcard]; exact hvotes⟩
  have heq := hmaj.unique hq' (fun v hv => (hq v hv).2) hvotes'
  exact ho.notChief (heq ▸ hc)

theorem win (inv : ElectionInv C h st elections) {ballot : Ballot} (log : List LogEntry)
    (hp : elections p = some ballot) (hvotes : C.ids.length < 2 * ballot.votes) :
    ElectionInv C (h.crown (st p).currentTerm p log)
      (Function.update st p { st p with role := .leader }) (Function.update elections p none) := by
  have hnone := inv.noChief hp hvotes
  have ho := inv.ballots p ballot hp
  obtain ⟨q, hsub, hcard, hpq, hq⟩ := ho.voters
  have hchief : ∀ t c, h.chief t = some c →
      (h.crown (st p).currentTerm p log).chief t = some c := by
    intro t c hc
    have hne : t ≠ (st p).currentTerm := fun heq => by rw [heq, hnone] at hc; cases hc
    simpa [History.crown, hne] using hc
  have hst : ∀ v, (Function.update st p { st p with role := .leader } v).currentTerm =
      (st v).currentTerm ∧
      (Function.update st p { st p with role := .leader } v).votedFor = (st v).votedFor ∧
      (Function.update st p { st p with role := .leader } v).nodeId = (st v).nodeId ∧
      (Function.update st p { st p with role := .leader } v).peers = (st v).peers := by
    intro v
    by_cases hv : v = p
    · subst hv
      simp
    · simp [hv]
  refine ⟨?_, ?_, ?_, ?_, ?_, ?_⟩
  · intro v
    rw [(hst v).2.2.1, (hst v).2.2.2]
    exact inv.identity v
  · intro v t c hvote
    rw [(hst v).1]
    exact inv.bounded v t c hvote
  · intro v
    rw [(hst v).1, (hst v).2.1]
    exact inv.current v
  · intro v b hb
    have hv : v ≠ p := by
      rintro rfl
      rw [Function.update_self] at hb
      cases hb
    rw [Function.update_of_ne hv] at hb ⊢
    have hov := inv.ballots v b hb
    refine ⟨hov.candidate, ?_, hov.nodup, hov.members, hov.voters⟩
    by_cases ht : (st v).currentTerm = (st p).currentTerm
    · simpa [History.crown, ht] using hv.symm
    · simpa [History.crown, ht] using hov.notChief
  · intro t c hc
    by_cases ht : t = (st p).currentTerm
    · subst ht
      obtain rfl : p = c := by simpa [History.crown] using hc
      refine ⟨q, ⟨hsub, ?_⟩, hpq, fun v hv => (hq v hv).2⟩
      rw [List.toFinset_card_of_nodup C.nodup, hcard]
      exact hvotes
    · exact inv.elected t c (by simpa [History.crown, ht] using hc)
  · intro v hrole
    rw [(hst v).1]
    by_cases hv : v = p
    · subst hv
      simp [History.crown]
    · rw [Function.update_of_ne hv] at hrole
      exact hchief _ _ (inv.leader v hrole)

end ElectionInv

/-- Whoever counts votes and becomes leader has those of more than half of
the nodes. -/
def Decided (C : Cluster) (s : ClusterState) : Action → Prop
  | .countVotes i => ∀ ballot ∈ s.elections i, ballot.votes > (s.nodes i).peers.length / 2 →
      C.ids.length < 2 * ballot.votes
  | _ => True

theorem start_inv (C : Cluster) : ElectionInv C {} C.start.standings C.start.elections where
  identity := fun _ => ⟨rfl, rfl⟩
  bounded := by
    intro v t c hv
    cases hv
  current := fun _ => rfl
  ballots := by
    intro i ballot hb
    cases hb
  elected := by
    intro t c hc
    cases hc
  leader := by
    intro i hrole
    cases hrole

theorem receive_step {C : Cluster} {h : History} {s : ClusterState} {p : String}
    (inv : ElectionInv C h s.standings s.elections) (hp : s.elections p = none)
    (msg : RaftMessage) :
    ElectionInv C (h.receive s p msg)
      (Function.update s.standings p ((s.nodes p).deliver msg).standing) s.elections :=
  inv.receive hp (deliver_received (s.nodes p) msg)

/-- A heartbeat reaches a node at any time, and changes neither its standing
nor the votes. -/
theorem heartbeat_received (h : History) (s : ClusterState) (p : String) {msg : RaftMessage}
    (hmsg : msg.isHeartbeat = true) :
    h.receive s p msg = h ∧ ((s.nodes p).deliver msg).standing = (s.nodes p).standing := by
  obtain ⟨sender, term, data⟩ := msg
  cases data with
  | heartbeat commit =>
      refine ⟨?_, heartbeat_standing (s.nodes p) commit⟩
      simp only [History.receive, handleRaftMessage]
      split <;> rfl
  | _ => cases hmsg

/-- A new leader log, unlike a new vote or winner, is no concern of elections. -/
theorem ElectionInv.congr {C : Cluster} {h h' : History} {st : String → Standing}
    {elections : String → Option Ballot} (inv : ElectionInv C h st elections)
    (hvote : h'.vote = h.vote) (hchief : h'.chief = h.chief) :
    ElectionInv C h' st elections where
  identity := inv.identity
  bounded := hvote ▸ inv.bounded
  current := hvote ▸ inv.current
  ballots := fun i ballot hb => (inv.ballots i ballot hb).mono hchief (fun v x t => by rw [hvote]; exact id)
  elected := by
    rw [hvote, hchief]
    exact inv.elected
  leader := hchief ▸ inv.leader

theorem countVotes_step {C : Cluster} {h : History} {s : ClusterState} {i : String}
    {ballot : Ballot} (inv : ElectionInv C h s.standings s.elections)
    (hb : s.elections i = some ballot)
    (hd : ballot.votes > (s.nodes i).peers.length / 2 → C.ids.length < 2 * ballot.votes) :
    ElectionInv C (h.record s (.countVotes i)) (s.perform (.countVotes i)).standings
      (s.perform (.countVotes i)).elections := by
  have hst : (s.perform (.countVotes i)).standings =
      Function.update s.standings i ((s.nodes i).countVotes ballot.votes).standing ∧
      (s.perform (.countVotes i)).elections = Function.update s.elections i none := by
    simp only [ClusterState.perform, hb]
    split <;> simp
  rw [hst.1, hst.2]
  simp only [History.record, hb]
  by_cases hmaj : ballot.votes > (s.nodes i).peers.length / 2
  · rw [if_pos hmaj, countVotes, if_pos hmaj]
    exact inv.win (s.nodes i).log hb (hd hmaj)
  · rw [if_neg hmaj, countVotes, if_neg hmaj]
    have hself : Function.update s.standings i (s.nodes i).standing = s.standings :=
      Function.update_eq_self i s.standings
    rw [hself]
    exact inv.lose i

theorem step_inv {C : Cluster} {h : History} {s : ClusterState} {action : Action}
    (inv : ElectionInv C h s.standings s.elections) (he : C.Enabled s action)
    (hd : Decided C s action) :
    ElectionInv C (h.record s action) (s.perform action).standings
      (s.perform action).elections := by
  cases action with
  | standForElection i =>
      have hid : (s.nodes i).nodeId = i := (inv.identity i).1
      simp only [ClusterState.perform, ClusterState.setElection_standings,
        ClusterState.setNode_standings, ClusterState.setElection_elections,
        ClusterState.setNode_elections]
      have hstand : (s.nodes i).standForElection.standing = { s.standings i with
          role := .candidate
          currentTerm := (s.nodes i).currentTerm + 1
          votedFor := some i } := by
        simp only [standForElection, standing, ClusterState.standings, hid]
      rw [hstand]
      exact inv.stand (s.nodes i).log he.1
  | askVote i =>
      obtain ⟨hi, p, hnext, hp⟩ := he
      obtain ⟨rest, votes, hb⟩ := ClusterState.mem_nextPeer hnext
      have hne : i ≠ p := by
        rintro rfl
        rw [hb] at hp
        cases hp
      have hid : (s.nodes i).nodeId = i := (inv.identity i).1
      have hgot := receive_step inv hp (s.nodes i).checkVote
      simp only [History.record, ClusterState.perform, hb, ClusterState.setElection_standings,
        ClusterState.setNode_standings, ClusterState.setElection_elections,
        ClusterState.setNode_elections]
      refine hgot.ask hb ?_
      intro hgrant
      rw [History.receive, if_pos hgrant, Function.update_of_ne hne]
      have hcast := castVote_self h p (s.nodes i).checkVote.senderId
        (s.nodes i).checkVote.term (s.nodes p).log
      rw [checkVote, hid] at hcast
      rw [checkVote, hid]
      exact hcast
  | askVoteUnanswered i =>
      obtain ⟨hi, hnext⟩ := he
      obtain ⟨p, hnext⟩ := Option.isSome_iff_exists.mp hnext
      obtain ⟨rest, votes, hb⟩ := ClusterState.mem_nextPeer hnext
      have hask := inv.ask hb (fun hf : false = true => by cases hf)
      simp only [History.record, ClusterState.perform, hb]
      exact hask
  | countVotes i =>
      obtain ⟨hi, ballot, hb, -⟩ := he
      exact countVotes_step inv hb (hd ballot hb)
  | deliver p msg =>
      obtain ⟨hp, hmem, hfree | hbeat⟩ := he
      · rw [ClusterState.perform, ClusterState.setNode_standings]
        exact receive_step inv hfree msg
      · obtain ⟨hrec, hst⟩ := heartbeat_received h s p hbeat
        rw [ClusterState.perform, ClusterState.setNode_standings_self s hst, History.record, hrec]
        exact inv
  | propose i command =>
      have hst := propose_standing (s.nodes i) command
      have hnow : (s.perform (.propose i command)).standings = s.standings ∧
          (s.perform (.propose i command)).elections = s.elections := by
        simp only [ClusterState.perform]
        split
        · rw [ClusterState.send_standings, ClusterState.setNode_standings_self s hst]
          exact ⟨rfl, rfl⟩
        · rw [ClusterState.setNode_standings_self s hst]
          exact ⟨rfl, rfl⟩
      rw [hnow.1, hnow.2, History.record]
      split
      · exact inv.congr rfl rfl
      · exact inv
  | ackEntry i index p =>
      have hst := ackEntry_standing (s.nodes i) index p
      rw [ClusterState.perform, ClusterState.setNode_standings_self s hst]
      exact inv
  | broadcastHeartbeat i => exact inv

theorem run_inv {C : Cluster} {h : History} {s : ClusterState} {actions : List Action}
    (inv : ElectionInv C h s.standings s.elections)
    (hrun : s.AlongRun (fun s action => C.Enabled s action ∧ Decided C s action) actions) :
    ElectionInv C (h.after s actions) (s.run actions).standings (s.run actions).elections := by
  induction actions generalizing h s with
  | nil => exact inv
  | cons action actions ih => exact ih (step_inv inv hrun.1.1 hrun.1.2) hrun.2

/-- A term keeps its winner. -/
theorem record_chief {C : Cluster} {h : History} {s : ClusterState} {action : Action}
    (inv : ElectionInv C h s.standings s.elections) (hd : Decided C s action) {term : Int}
    {c : String} (hc : h.chief term = some c) : (h.record s action).chief term = some c := by
  have hrecv : ∀ p msg, (h.receive s p msg).chief term = some c := by
    intro p msg
    rw [History.receive]
    split <;> exact hc
  cases action with
  | askVote i =>
      simp only [History.record]
      split
      · exact hrecv _ _
      · exact hc
  | countVotes i =>
      simp only [History.record]
      split
      · rename_i awaiting votes hb
        split
        · rename_i hmaj
          have hnone := inv.noChief hb (hd _ hb hmaj)
          have hne : term ≠ (s.nodes i).currentTerm := by
            rintro rfl
            exact absurd (hc.symm.trans hnone) (by simp)
          simpa [History.crown, hne] using hc
        · exact hc
      · exact hc
  | deliver p msg => exact hrecv p msg
  | propose i command =>
      rw [History.record]
      split <;> exact hc
  | _ => exact hc

theorem after_chief {C : Cluster} {h : History} {s : ClusterState} {actions : List Action}
    (inv : ElectionInv C h s.standings s.elections)
    (hrun : s.AlongRun (fun s action => C.Enabled s action ∧ Decided C s action) actions)
    {term : Int} {c : String} (hc : h.chief term = some c) :
    (h.after s actions).chief term = some c := by
  induction actions generalizing h s with
  | nil => exact hc
  | cons action actions ih =>
      exact ih (step_inv inv hrun.1.1 hrun.1.2) hrun.2 (record_chief inv hrun.1.2 hc)

theorem History.after_append (h : History) (s : ClusterState) (first later : List Action) :
    h.after s (first ++ later) = (h.after s first).after (s.run first) later := by
  induction first generalizing h s with
  | nil => rfl
  | cons action first ih => exact ih (h.record s action) (s.perform action)

end Prodinamik.Raft.Election
