import Prodinamik.Lib.TermLog
import Prodinamik.Raft.Election

namespace Prodinamik.Raft.LogInvariant

open Lib Lib.Quorum Lib.TermLog Election DistributedStateMachine

abbrev TracedLog (h : History) (log : List LogEntry) : Prop :=
  Traced LogEntry.term h.leaderLog log

theorem lastLogTerm_eq {σ : Type} (d : DistributedStateMachine σ) :
    d.lastLogTerm = lastTerm LogEntry.term d.log := by
  rw [lastLogTerm, lastTerm]
  cases d.log.getLast? <;> rfl

/-- Logs, leader logs and votes only ever grow, and a vote that comes later is
cast with at least the log its voter has now. -/
structure Grows (h : History) (s : ClusterState) (h' : History) (s' : ClusterState) : Prop where
  logs : ∀ v, (s.nodes v).log <+: (s'.nodes v).log
  leaderLogs : ∀ t, h.leaderLog t <+: h'.leaderLog t
  votes : ∀ v t c, h.vote v t = some c → h'.vote v t = some c ∧ h'.seen v t = h.seen v t
  newVotes : ∀ v t, h.vote v t = none → h'.vote v t ≠ none →
    (s.nodes v).currentTerm ≤ t ∧ (s.nodes v).log <+: h'.seen v t
  chiefs : ∀ t c, h.chief t = some c → h'.chief t = some c
  terms : ∀ v, (s.nodes v).currentTerm ≤ (s'.nodes v).currentTerm

theorem Grows.refl (h : History) (s : ClusterState) : Grows h s h s where
  logs := fun _ => List.prefix_rfl
  leaderLogs := fun _ => List.prefix_rfl
  votes := fun _ _ _ hv => ⟨hv, rfl⟩
  newVotes := fun _ _ hn hv => absurd hn hv
  chiefs := fun _ _ hc => hc
  terms := fun _ => le_rfl

theorem Grows.trans {h h' h'' : History} {s s' s'' : ClusterState} (g : Grows h s h' s')
    (g' : Grows h' s' h'' s'') : Grows h s h'' s'' where
  logs := fun v => (g.logs v).trans (g'.logs v)
  leaderLogs := fun t => (g.leaderLogs t).trans (g'.leaderLogs t)
  votes := by
    intro v t c hv
    obtain ⟨hv', hs'⟩ := g.votes v t c hv
    obtain ⟨hv'', hs''⟩ := g'.votes v t c hv'
    exact ⟨hv'', hs''.trans hs'⟩
  newVotes := by
    intro v t hn hv
    cases hmid : h'.vote v t with
    | none =>
        obtain ⟨hterm, hlog⟩ := g'.newVotes v t hmid hv
        exact ⟨(g.terms v).trans hterm, (g.logs v).trans hlog⟩
    | some c =>
        obtain ⟨-, hs''⟩ := g'.votes v t c hmid
        obtain ⟨hterm, hlog⟩ := g.newVotes v t hn (by simp [hmid])
        exact ⟨hterm, hs'' ▸ hlog⟩
  chiefs := fun t c hc => g'.chiefs t c (g.chiefs t c hc)
  terms := fun v => (g.terms v).trans (g'.terms v)

/-- Node v has the first k + 1 entries of the leader of the term, and had them
whenever it voted in a later term. -/
structure Held (h : History) (s : ClusterState) (v : String) (term : Int) (k : Nat) : Prop where
  inLog : (h.leaderLog term).take (k + 1) <+: (s.nodes v).log
  inVotes : ∀ u, term < u → h.vote v u ≠ none → (h.leaderLog term).take (k + 1) <+: h.seen v u

/-- More than half of the nodes hold the first k + 1 entries of the leader of
the term, the last of which is of that term. -/
structure Committed (C : Cluster) (h : History) (s : ClusterState) (term : Int) (k : Nat) :
    Prop where
  entry : ∃ entry, (h.leaderLog term)[k]? = some entry ∧ entry.term = term
  quorum : ∃ q, IsMajority C.ids.toFinset q ∧ ∀ v ∈ q, Held h s v term k

/-- The log is committed up to the index. -/
def Covered (C : Cluster) (h : History) (s : ClusterState) (log : List LogEntry)
    (index : Int) : Prop :=
  ∀ k : Nat, (k : Int) ≤ index → ∃ term m, k ≤ m ∧ Committed C h s term m ∧
    (h.leaderLog term).take (k + 1) <+: log

section Mono

variable {C : Cluster} {h h' : History} {s s' : ClusterState}

theorem Grows.take_leaderLog (g : Grows h s h' s') {term : Int} {k : Nat} {entry : LogEntry}
    (hk : (h.leaderLog term)[k]? = some entry) :
    (h'.leaderLog term).take (k + 1) = (h.leaderLog term).take (k + 1) :=
  (prefix_take_succ (g.leaderLogs term) hk).symm

theorem Held.mono (g : Grows h s h' s') {v : String} {term : Int} {k : Nat} {entry : LogEntry}
    (hk : (h.leaderLog term)[k]? = some entry) (held : Held h s v term k) :
    Held h' s' v term k where
  inLog := by
    rw [g.take_leaderLog hk]
    exact held.inLog.trans (g.logs v)
  inVotes := by
    intro u hu hv
    rw [g.take_leaderLog hk]
    cases hold : h.vote v u with
    | none => exact held.inLog.trans (g.newVotes v u hold hv).2
    | some c =>
        rw [(g.votes v u c hold).2]
        exact held.inVotes u hu (by simp [hold])

theorem Committed.mono (g : Grows h s h' s') {term : Int} {k : Nat}
    (hc : Committed C h s term k) : Committed C h' s' term k := by
  obtain ⟨⟨entry, hk, hterm⟩, q, hq, hheld⟩ := hc
  exact ⟨⟨entry, prefix_getElem? (g.leaderLogs term) hk, hterm⟩, q, hq,
    fun v hv => (hheld v hv).mono g hk⟩

theorem Covered.mono (g : Grows h s h' s') {log log' : List LogEntry} {index : Int}
    (hlog : log <+: log') (hc : Covered C h s log index) : Covered C h' s' log' index := by
  intro k hk
  obtain ⟨term, m, hkm, hcom, hpre⟩ := hc k hk
  refine ⟨term, m, hkm, hcom.mono g, ?_⟩
  obtain ⟨entry, hm, -⟩ := hcom.entry
  obtain ⟨hlt, -⟩ := List.getElem?_eq_some_iff.mp hm
  rw [g.take_leaderLog (List.getElem?_eq_getElem (by omega : k < (h.leaderLog term).length))]
  exact hpre.trans hlog

theorem Covered.lt_length {log : List LogEntry} {index : Int} (hc : Covered C h s log index) :
    index < log.length := by
  by_contra hge
  obtain ⟨term, m, hkm, hcom, hpre⟩ := hc log.length (by omega)
  obtain ⟨entry, hm, -⟩ := hcom.entry
  obtain ⟨hlt, -⟩ := List.getElem?_eq_some_iff.mp hm
  have hlen := hpre.length_le
  rw [List.length_take] at hlen
  omega

theorem covered_neg {log : List LogEntry} : Covered C h s log (-1) := by
  intro k hk
  omega

theorem Covered.of_le {log : List LogEntry} {index index' : Int} (hle : index' ≤ index)
    (hc : Covered C h s log index) : Covered C h s log index' :=
  fun k hk => hc k (hk.trans hle)

end Mono

/-- What the history of the elections says about the leaders' logs. -/
structure HistoryInv (h : History) : Prop where
  leaderTraced : ∀ t, TracedLog h (h.leaderLog t)
  leaderBounded : ∀ t, ∀ entry ∈ h.leaderLog t, entry.term ≤ t
  chiefless : ∀ t, h.chief t = none → h.leaderLog t = []
  nonneg : ∀ t c, h.chief t = some c → 0 ≤ t
  seenTraced : ∀ v t, TracedLog h (h.seen v t)
  stood : ∀ v t c, h.vote v t = some c → h.vote c t = some c
  fresher : ∀ v t c, h.vote v t = some c →
    Fresher LogEntry.term (h.seen c t) (h.seen v t)
  elected : ∀ t c, h.chief t = some c →
    h.seen c t <+: h.leaderLog t ∧ ∀ entry ∈ h.seen c t, entry.term < t

/-- Leader completeness: what a majority holds of the log of one term is in
the logs of the leaders of all later terms. -/
theorem leaderLog_complete {C : Cluster} {h : History} {s : ClusterState}
    (el : ElectionInv C h s.standings s.elections) (hist : HistoryInv h) {term : Int} {k : Nat}
    (hc : Committed C h s term k) {u : Int} (hu : term < u) (hne : h.chief u ≠ none) :
    (h.leaderLog term).take (k + 1) <+: h.leaderLog u := by
  obtain ⟨⟨entry, hk, hterm⟩, q, hq, hheld⟩ := hc
  have hpos : 0 ≤ term := by
    cases hchief : h.chief term with
    | none =>
        rw [hist.chiefless term hchief] at hk
        simp at hk
    | some c => exact hist.nonneg term c hchief
  obtain ⟨n, hn⟩ : ∃ n : Nat, u = term + n := ⟨(u - term).toNat, by omega⟩
  induction n using Nat.strong_induction_on generalizing u with
  | _ n ih =>
      obtain ⟨c, hchief⟩ := Option.ne_none_iff_exists'.mp hne
      obtain ⟨q', hq', -, hvotes⟩ := el.elected u c hchief
      obtain ⟨v, hv⟩ := hq.inter_nonempty hq'
      obtain ⟨hvq, hvq'⟩ := Finset.mem_inter.mp hv
      have hvote := hvotes v hvq'
      obtain ⟨hpre, hsmall⟩ := hist.elected u c hchief
      refine List.IsPrefix.trans ?_ hpre
      refine Traced.carries hist.leaderBounded (hist.seenTraced c u) (hist.seenTraced v u)
        (hist.fresher v u c hvote) hpos hk hterm
        ((hheld v hvq).inVotes u hu (by simp [hvote])) ?_
      intro w hw hlast hleader
      have hwu : w < u := by
        have hseen : h.seen c u ≠ [] := by
          intro hnil
          rw [hnil] at hlast
          simp only [lastTerm, List.getLast?_nil] at hlast
          omega
        have hlast' := List.getLast?_eq_some_getLast hseen
        rw [hlast, lastTerm, hlast']
        exact hsmall _ (List.getLast_mem hseen)
      refine ih (w - term).toNat (by omega) hw ?_ (by omega)
      intro hnone
      exact hleader (hist.chiefless w hnone)

structure NodeInv (C : Cluster) (h : History) (s : ClusterState) (i : String) : Prop where
  traced : TracedLog h (s.nodes i).log
  bounded : ∀ entry ∈ (s.nodes i).log, entry.term ≤ (s.nodes i).currentTerm
  nonneg : 0 ≤ (s.nodes i).currentTerm
  leader : (s.nodes i).role = .leader → h.leaderLog (s.nodes i).currentTerm = (s.nodes i).log
  covered : Covered C h s (s.nodes i).log (s.nodes i).commitIndex
  acks : ∀ (index : Nat) (v : String), v ∈ (s.nodes i).pendingAcks index →
    (s.nodes i).commitIndex < index → v ∈ C.ids ∧
      ∃ entry, (s.nodes i).log[index]? = some entry ∧ Held h s v entry.term index
  standing : s.elections i ≠ none → (s.nodes i).log = h.seen i (s.nodes i).currentTerm ∧
    ∀ entry ∈ (s.nodes i).log, entry.term < (s.nodes i).currentTerm

def MessageInv (C : Cluster) (h : History) (s : ClusterState) (p : String) (msg : RaftMessage) :
    Prop :=
  match msg.data with
  | .requestVote lastIndex lastTerm =>
      h.vote msg.senderId msg.term = some msg.senderId ∧
        lastIndex = (h.seen msg.senderId msg.term).length - 1 ∧
        lastTerm = TermLog.lastTerm LogEntry.term (h.seen msg.senderId msg.term)
  | .appendEntries entries prevLogIndex prevLogTerm leaderCommit =>
      p ≠ msg.senderId ∧ h.chief msg.term = some msg.senderId ∧ entries ≠ [] ∧
        prevLogIndex = entries.length - 1 ∧
        prevLogTerm = TermLog.lastTerm LogEntry.term entries ∧ TracedLog h entries ∧
        (∀ entry ∈ entries, entry.term ≤ msg.term) ∧ Covered C h s entries leaderCommit
  | .heartbeat leaderCommit => Covered C h s (s.nodes msg.senderId).log leaderCommit
  | _ => True

structure LogInv (C : Cluster) (h : History) (s : ClusterState) : Prop where
  election : ElectionInv C h s.standings s.elections
  history : HistoryInv h
  nodes : ∀ i, NodeInv C h s i
  messages : ∀ p msg, (p, msg) ∈ s.inFlight → MessageInv C h s p msg

/-- The log check that request_vote leaves out: on equal last terms, the
candidate's log is not shorter. -/
def VoteSound (d : DistributedStateMachine StateMap) (msg : RaftMessage)
    (lastIndex lastTerm : Int) : Prop :=
  (d.currentTerm < msg.term ∨
    msg.term = d.currentTerm ∧ (d.votedFor = none ∨ d.votedFor = some msg.senderId)) →
  lastTerm = d.lastLogTerm → (d.log.length : Int) - 1 ≤ lastIndex

/-- The entries are refused, or are the first ones of a node of the sender's
term, or bring nothing new. -/
def AppendSound (d : DistributedStateMachine StateMap) (msg : RaftMessage)
    (entries : List LogEntry) (prevLogIndex prevLogTerm : Int) : Prop :=
  d.conflictTerm prevLogIndex prevLogTerm ≠ none ∨ (d.log = [] ∧ msg.term = d.currentTerm) ∨
    ∀ x ∈ entries.zipIdx, ∃ old ∈ PyList.get d.log (prevLogIndex + 1 + x.2), old.term = x.1.term

/-- The last entry that a heartbeat commits is of the same term as the
sender's entry at that index. -/
def HeartbeatSound (d sender : DistributedStateMachine StateMap) (leaderCommit : Int) : Prop :=
  d.commitIndex < leaderCommit →
    ∀ entry ∈ d.log[(min leaderCommit (d.log.length - 1)).toNat]?,
      ∃ entry' ∈ sender.log[(min leaderCommit (d.log.length - 1)).toNat]?,
        entry'.term = entry.term

def ReceiveSound (s : ClusterState) (p : String) (msg : RaftMessage) : Prop :=
  match msg.data with
  | .requestVote lastIndex lastTerm => VoteSound (s.nodes p) msg lastIndex lastTerm
  | .appendEntries entries prevLogIndex prevLogTerm _ =>
      AppendSound (s.nodes p) msg entries prevLogIndex prevLogTerm
  | .heartbeat leaderCommit => HeartbeatSound (s.nodes p) (s.nodes msg.senderId) leaderCommit
  | _ => True

/-- What the code does not check before it acts. An acknowledgement counts
for an index that is not committed yet if the peer that gives it is not ahead
of the entry's term; the acknowledgements that commit are those of more than
half of the nodes. -/
def Sound (C : Cluster) (s : ClusterState) : Action → Prop
  | .askVote i => ∀ p ∈ s.nextPeer i, ReceiveSound s p (s.nodes i).checkVote
  | .countVotes i => Decided C s (.countVotes i)
  | .deliver p msg => ReceiveSound s p msg
  | .propose i command => (s.nodes i).role = .leader →
      ((s.nodes i).appendOwn command).checkMajority (s.nodes i).log.length = true →
      C.ids.length < 2
  | .ackEntry i index p => (s.nodes i).commitIndex < index →
      (∀ entry ∈ (s.nodes i).log[index]?, (s.nodes p).currentTerm ≤ entry.term) ∧
      (((s.nodes i).recordAck index p).checkMajority index = true →
        C.ids.length < 2 * (((s.nodes i).recordAck index p).pendingAcks index).card)
  | _ => True

instance (s : ClusterState) (p : String) : ∀ msg : RaftMessage, Decidable (ReceiveSound s p msg)
  | ⟨_, _, .requestVote _ _⟩ => inferInstanceAs (Decidable (_ → _ → _))
  | ⟨_, _, .appendEntries _ _ _ _⟩ => inferInstanceAs (Decidable (_ ∨ _ ∨ _))
  | ⟨_, _, .heartbeat _⟩ => inferInstanceAs (Decidable (_ → ∀ entry ∈ _, ∃ entry' ∈ _, _))
  | ⟨_, _, .requestVoteResponse _⟩ => inferInstanceAs (Decidable True)
  | ⟨_, _, .appendEntriesResponse _ _ _⟩ => inferInstanceAs (Decidable True)
  | ⟨_, _, .heartbeatResponse _⟩ => inferInstanceAs (Decidable True)

instance (C : Cluster) (s : ClusterState) : DecidablePred (Sound C s)
  | .askVote i => inferInstanceAs
      (Decidable (∀ p ∈ s.nextPeer i, ReceiveSound s p (s.nodes i).checkVote))
  | .countVotes i => inferInstanceAs (Decidable (∀ ballot ∈ s.elections i, _ → _))
  | .deliver p msg => inferInstanceAs (Decidable (ReceiveSound s p msg))
  | .propose i _ => inferInstanceAs (Decidable (_ → _ → _))
  | .ackEntry i index p => inferInstanceAs (Decidable (_ → _ ∧ _))
  | .standForElection _ => inferInstanceAs (Decidable True)
  | .askVoteUnanswered _ => inferInstanceAs (Decidable True)
  | .broadcastHeartbeat _ => inferInstanceAs (Decidable True)

theorem Sound.decided {C : Cluster} {s : ClusterState} {action : Action} (h : Sound C s action) :
    Decided C s action := by
  cases action with
  | countVotes i => exact h
  | _ => trivial

section Steps

variable {C : Cluster} {h h' : History} {s s' : ClusterState}

/-- A node whose log, commit index and acknowledgements stay as they are. -/
theorem NodeInv.keep {i : String} (inv : NodeInv C h s i) (g : Grows h s h' s')
    (hbook : (s'.nodes i).book = (s.nodes i).book)
    (hleader : (s'.nodes i).role = .leader →
      h'.leaderLog (s'.nodes i).currentTerm = (s'.nodes i).log)
    (hstanding : s'.elections i ≠ none →
      (s'.nodes i).log = h'.seen i (s'.nodes i).currentTerm ∧
        ∀ entry ∈ (s'.nodes i).log, entry.term < (s'.nodes i).currentTerm) :
    NodeInv C h' s' i := by
  have hlog : (s'.nodes i).log = (s.nodes i).log := congrArg Book.log hbook
  have hcommit : (s'.nodes i).commitIndex = (s.nodes i).commitIndex :=
    congrArg Book.commitIndex hbook
  have hacks : (s'.nodes i).pendingAcks = (s.nodes i).pendingAcks :=
    congrArg Book.pendingAcks hbook
  refine ⟨?_, ?_, inv.nonneg.trans (g.terms i), hleader, ?_, ?_, hstanding⟩
  · rw [hlog]
    exact inv.traced.mono g.leaderLogs
  · rw [hlog]
    exact fun entry he => (inv.bounded entry he).trans (g.terms i)
  · rw [hlog, hcommit]
    exact inv.covered.mono g List.prefix_rfl
  · rw [hlog, hcommit, hacks]
    intro index v hv hlt
    obtain ⟨hid, entry, hentry, hheld⟩ := inv.acks index v hv hlt
    exact ⟨hid, entry, hentry, hheld.mono g (inv.traced.get_leaderLog hentry)⟩

theorem MessageInv.mono {p : String} {msg : RaftMessage} (inv : MessageInv C h s p msg)
    (g : Grows h s h' s') : MessageInv C h' s' p msg := by
  obtain ⟨sender, term, data⟩ := msg
  cases data with
  | requestVote lastIndex lastTerm =>
      obtain ⟨hvote, hindex, hterm⟩ := inv
      obtain ⟨hvote', hseen⟩ := g.votes sender term sender hvote
      refine ⟨hvote', ?_, ?_⟩
      · rw [hseen]
        exact hindex
      · rw [hseen]
        exact hterm
  | appendEntries entries prev prevTerm commit =>
      obtain ⟨hne, hchief, hnil, hprev, hterm, htraced, hbound, hcovered⟩ := inv
      exact ⟨hne, g.chiefs term sender hchief, hnil, hprev, hterm,
        Traced.mono htraced g.leaderLogs, hbound, hcovered.mono g List.prefix_rfl⟩
  | heartbeat commit => exact Covered.mono g (g.logs sender) inv
  | _ => trivial

/-- A vote for a candidate whose log was found fresh, or for oneself in a new
term. -/
theorem HistoryInv.cast (inv : HistoryInv h) (el : ElectionInv C h s.standings s.elections)
    {p c : String} {term : Int} {log : List LogEntry}
    (hfree : h.vote p term = none ∨ h.vote p term = some c) (hlog : TracedLog h log)
    (hstood : (c = p ∧ h.vote p term = none) ∨
      (h.vote c term = some c ∧ Fresher LogEntry.term (h.seen c term) log)) :
    HistoryInv (h.castVote p term c log) where
  leaderTraced := inv.leaderTraced
  leaderBounded := inv.leaderBounded
  chiefless := inv.chiefless
  nonneg := inv.nonneg
  seenTraced := by
    intro v t
    by_cases hv : v = p ∧ t = term ∧ h.vote p term = none
    · obtain ⟨rfl, rfl, hnone⟩ := hv
      rw [castVote_seen_new h c log hnone]
      exact hlog
    · have hkept : (h.castVote p term c log).seen v t = h.seen v t := by
        by_cases hne : v ≠ p ∨ t ≠ term
        · exact castVote_seen_other h log hne
        · obtain ⟨rfl, rfl⟩ : v = p ∧ t = term := by tauto
          exact castVote_seen_kept h log (fun hnone => hv ⟨rfl, rfl, hnone⟩)
      rw [hkept]
      exact inv.seenTraced v t
  stood := by
    intro v t x hx
    by_cases hne : v ≠ p ∨ t ≠ term
    · rw [castVote_other h log hne] at hx
      exact castVote_mono hfree (inv.stood v t x hx)
    · obtain ⟨rfl, rfl⟩ : v = p ∧ t = term := by tauto
      rw [castVote_self] at hx
      obtain rfl := Option.some_injective _ hx
      rcases hstood with ⟨rfl, -⟩ | ⟨hc, -⟩
      · exact castVote_self h c c t log
      · exact castVote_mono hfree hc
  fresher := by
    intro v t x hx
    by_cases hne : v ≠ p ∨ t ≠ term
    · rw [castVote_other h log hne] at hx
      rw [castVote_seen_kept h log (Option.ne_none_iff_exists'.mpr ⟨_, hx⟩),
        castVote_seen_kept h log (Option.ne_none_iff_exists'.mpr ⟨_, inv.stood v t x hx⟩)]
      exact inv.fresher v t x hx
    · obtain ⟨rfl, rfl⟩ : v = p ∧ t = term := by tauto
      rw [castVote_self] at hx
      obtain rfl := Option.some_injective _ hx
      cases hold : h.vote v t with
      | some y =>
          rw [castVote_seen_kept h log (Option.ne_none_iff_exists'.mpr ⟨_, hold⟩)]
          rw [hold] at hfree
          obtain rfl : y = c := by simpa using hfree
          rw [castVote_seen_kept h log (Option.ne_none_iff_exists'.mpr ⟨_, inv.stood v t y hold⟩)]
          exact inv.fresher v t y hold
      | none =>
          rw [castVote_seen_new h c log hold]
          rcases hstood with ⟨rfl, -⟩ | ⟨hc, hfresh⟩
          · rw [castVote_seen_new h c log hold]
            exact Fresher.refl log
          · rw [castVote_seen_kept h log (Option.ne_none_iff_exists'.mpr ⟨_, hc⟩)]
            exact hfresh
  elected := by
    intro t x hx
    obtain ⟨q, -, hxq, hvotes⟩ := el.elected t x hx
    rw [castVote_seen_kept h log (Option.ne_none_iff_exists'.mpr ⟨_, hvotes x hxq⟩)]
    exact inv.elected t x hx

theorem HistoryInv.crown (inv : HistoryInv h) {term : Int} {i : String} {log : List LogEntry}
    (hnone : h.chief term = none) (hterm : 0 ≤ term) (hlog : TracedLog h log)
    (hseen : log = h.seen i term) (hsmall : ∀ entry ∈ log, entry.term < term) :
    HistoryInv (h.crown term i log) := by
  have hgrow : ∀ t, h.leaderLog t <+: (h.crown term i log).leaderLog t := by
    intro t
    by_cases ht : t = term
    · rw [ht, inv.chiefless term hnone]
      exact List.nil_prefix
    · simp [History.crown, ht]
  refine ⟨?_, ?_, ?_, ?_, ?_, inv.stood, inv.fresher, ?_⟩
  · intro t
    by_cases ht : t = term
    · subst ht
      simpa [History.crown] using hlog.mono hgrow
    · simpa [History.crown, ht] using (inv.leaderTraced t).mono hgrow
  · intro t entry he
    by_cases ht : t = term
    · subst ht
      exact le_of_lt (hsmall entry (by simpa [History.crown] using he))
    · exact inv.leaderBounded t entry (by simpa [History.crown, ht] using he)
  · intro t hc
    have ht : t ≠ term := by
      rintro rfl
      simp [History.crown] at hc
    have hold := inv.chiefless t (by simpa [History.crown, ht] using hc)
    simpa [History.crown, ht] using hold
  · intro t c hc
    by_cases ht : t = term
    · exact ht ▸ hterm
    · exact inv.nonneg t c (by simpa [History.crown, ht] using hc)
  · exact fun v t => (inv.seenTraced v t).mono hgrow
  · intro t c hc
    by_cases ht : t = term
    · subst ht
      obtain rfl : i = c := by simpa [History.crown] using hc
      have hown : (h.crown t i log).seen i t <+: (h.crown t i log).leaderLog t := by
        simp [History.crown, hseen]
      exact ⟨hown, fun entry he => hsmall entry (by rwa [hseen])⟩
    · have hold := inv.elected t c (by simpa [History.crown, ht] using hc)
      simpa [History.crown, ht] using hold

/-- The leader of a term logs an entry of its term. -/
theorem HistoryInv.extend (inv : HistoryInv h) {term : Int} (entry : LogEntry)
    (hterm : entry.term = term) (hchief : h.chief term ≠ none) :
    HistoryInv { h with
      leaderLog := Function.update h.leaderLog term (h.leaderLog term ++ [entry]) } := by
  have hgrow : ∀ t, h.leaderLog t <+:
      Function.update h.leaderLog term (h.leaderLog term ++ [entry]) t := by
    intro t
    by_cases ht : t = term
    · subst ht
      rw [Function.update_self]
      exact List.prefix_append _ _
    · rw [Function.update_of_ne ht]
  refine ⟨?_, ?_, ?_, inv.nonneg, ?_, inv.stood, inv.fresher, ?_⟩
  · intro t
    by_cases ht : t = term
    · subst ht
      simp only [Function.update_self]
      apply Traced.snoc ((inv.leaderTraced t).mono hgrow)
      rw [hterm, Function.update_self]
    · simp only [Function.update_of_ne ht]
      exact (inv.leaderTraced t).mono hgrow
  · intro t e he
    by_cases ht : t = term
    · subst ht
      simp only [Function.update_self, List.mem_append, List.mem_singleton] at he
      rcases he with he | rfl
      · exact inv.leaderBounded t e he
      · exact le_of_eq hterm
    · simp only [Function.update_of_ne ht] at he
      exact inv.leaderBounded t e he
  · intro t hc
    have ht : t ≠ term := by
      rintro rfl
      exact hchief hc
    simp only [Function.update_of_ne ht]
    exact inv.chiefless t hc
  · exact fun v t => (inv.seenTraced v t).mono hgrow
  · intro t c hc
    obtain ⟨hpre, hsmall⟩ := inv.elected t c hc
    exact ⟨hpre.trans (hgrow t), hsmall⟩

theorem Grows.cast {p c : String} {term : Int} (hfree : h.vote p term = none ∨ h.vote p term = some c)
    (hterm : (s.nodes p).currentTerm ≤ term)
    (hlogs : ∀ v, (s.nodes v).log <+: (s'.nodes v).log)
    (hterms : ∀ v, (s.nodes v).currentTerm ≤ (s'.nodes v).currentTerm) :
    Grows h s (h.castVote p term c (s.nodes p).log) s' where
  logs := hlogs
  leaderLogs := fun _ => List.prefix_rfl
  votes := by
    intro v t x hx
    exact ⟨castVote_mono hfree hx,
      castVote_seen_kept h _ (Option.ne_none_iff_exists'.mpr ⟨x, hx⟩)⟩
  newVotes := by
    intro v t hnone hv
    by_cases hne : v ≠ p ∨ t ≠ term
    · rw [castVote_other h _ hne] at hv
      exact absurd hnone hv
    · obtain ⟨rfl, rfl⟩ : v = p ∧ t = term := by tauto
      rw [castVote_seen_new h c _ hnone]
      exact ⟨hterm, List.prefix_rfl⟩
  chiefs := fun _ _ hc => hc
  terms := hterms

/-- The votes stay as they are. -/
theorem Grows.still (hlogs : ∀ v, (s.nodes v).log <+: (s'.nodes v).log)
    (hterms : ∀ v, (s.nodes v).currentTerm ≤ (s'.nodes v).currentTerm)
    (hleader : ∀ t, h.leaderLog t <+: h'.leaderLog t) (hvote : h'.vote = h.vote)
    (hseen : h'.seen = h.seen) (hchief : ∀ t c, h.chief t = some c → h'.chief t = some c) :
    Grows h s h' s' where
  logs := hlogs
  leaderLogs := hleader
  votes := fun v t c hv => ⟨by rw [hvote, hv], by rw [hseen]⟩
  newVotes := fun v t hnone hv => absurd hnone (hvote ▸ hv)
  chiefs := hchief
  terms := hterms

theorem ownVote (el : ElectionInv C h s.standings s.elections) {i : String}
    (hb : s.elections i ≠ none) : h.vote i (s.nodes i).currentTerm = some i := by
  obtain ⟨ballot, hb⟩ := Option.ne_none_iff_exists'.mp hb
  obtain ⟨q, -, -, hi, hq⟩ := (el.ballots i ballot hb).voters
  exact (hq i hi).2

/-- One node moves, the others stay, and new messages are true. -/
theorem LogInv.assemble (inv : LogInv C h s) (g : Grows h s h' s')
    (el : ElectionInv C h' s'.standings s'.elections) (hist : HistoryInv h') (p : String)
    (hp : NodeInv C h' s' p)
    (hothers : ∀ v, v ≠ p → s'.nodes v = s.nodes v ∧
      (s'.elections v ≠ none → s.elections v ≠ none))
    (hleader : ∀ v, v ≠ p → (s.nodes v).role = .leader →
      h'.leaderLog (s.nodes v).currentTerm = h.leaderLog (s.nodes v).currentTerm)
    (hmsgs : ∀ q msg, (q, msg) ∈ s'.inFlight → (q, msg) ∈ s.inFlight ∨ MessageInv C h' s' q msg) :
    LogInv C h' s' where
  election := el
  history := hist
  nodes := by
    intro v
    by_cases hv : v = p
    · exact hv ▸ hp
    obtain ⟨hnode, hel⟩ := hothers v hv
    refine (inv.nodes v).keep g (by rw [hnode]) ?_ ?_
    · intro hrole
      rw [hnode] at hrole ⊢
      rw [hleader v hv hrole]
      exact (inv.nodes v).leader hrole
    · intro hopen
      obtain ⟨hlog, hsmall⟩ := (inv.nodes v).standing (hel hopen)
      rw [hnode, (g.votes v _ v (ownVote inv.election (hel hopen))).2]
      exact ⟨hlog, hsmall⟩
  messages := by
    intro q msg hmem
    rcases hmsgs q msg hmem with hold | hnew
    · exact (inv.messages q msg hold).mono g
    · exact hnew

theorem checkVote_inv (inv : LogInv C h s) {i : String} (hb : s.elections i ≠ none) (p : String) :
    MessageInv C h s p (s.nodes i).checkVote := by
  have hid : (s.nodes i).nodeId = i := (inv.election.identity i).1
  obtain ⟨hlog, -⟩ := (inv.nodes i).standing hb
  rw [checkVote, hid, MessageInv]
  simp only
  rw [← hlog]
  exact ⟨ownVote inv.election hb, rfl, lastLogTerm_eq _⟩

theorem requestVote_book {σ : Type} (d : DistributedStateMachine σ) (term : Int)
    (candidate : String) (lastIndex lastTerm : Int) :
    (d.requestVote term candidate lastIndex lastTerm).1.book = d.book := by
  have hout := requestVote_outcome d term candidate lastIndex lastTerm
  generalize d.requestVote term candidate lastIndex lastTerm = r at hout ⊢
  cases hout <;> rfl

/-- A vote request is handled by a node that is not itself in an election. -/
theorem receive_vote (inv : LogInv C h s) {p sender : String} {term lastIndex lastTerm : Int}
    (hmsg : MessageInv C h s p ⟨sender, term, .requestVote lastIndex lastTerm⟩)
    (hsound : VoteSound (s.nodes p) ⟨sender, term, .requestVote lastIndex lastTerm⟩
      lastIndex lastTerm)
    (hnodes : s'.nodes = Function.update s.nodes p
      ((s.nodes p).requestVote term sender lastIndex lastTerm).1)
    (hfree : s'.elections p = none) :
    Grows h s (h.receive s p ⟨sender, term, .requestVote lastIndex lastTerm⟩) s' ∧
      HistoryInv (h.receive s p ⟨sender, term, .requestVote lastIndex lastTerm⟩) ∧
      NodeInv C (h.receive s p ⟨sender, term, .requestVote lastIndex lastTerm⟩) s' p := by
  obtain ⟨hvote, hindex, hlast⟩ := hmsg
  simp only at hvote hindex hlast
  have hnode : s'.nodes p = ((s.nodes p).requestVote term sender lastIndex lastTerm).1 := by
    rw [hnodes, Function.update_self]
  have hbook : (s'.nodes p).book = (s.nodes p).book := by
    rw [hnode, requestVote_book]
  have hother : ∀ v, v ≠ p → s'.nodes v = s.nodes v := by
    intro v hv
    rw [hnodes, Function.update_of_ne hv]
  have hlogs : ∀ v, (s.nodes v).log <+: (s'.nodes v).log := by
    intro v
    by_cases hv : v = p
    · subst hv
      rw [show (s'.nodes v).log = (s.nodes v).log from congrArg Book.log hbook]
    · rw [hother v hv]
  have hkeep : ∀ h' : History, h'.leaderLog = h.leaderLog → Grows h s h' s' →
      ((s'.nodes p).role = .leader → (s.nodes p).role = .leader ∧
        (s'.nodes p).currentTerm = (s.nodes p).currentTerm) → NodeInv C h' s' p := by
    intro h' hleaderLog g hrole
    refine (inv.nodes p).keep g hbook ?_ (fun hopen => absurd hfree hopen)
    intro hlead
    obtain ⟨hold, hterm⟩ := hrole hlead
    rw [hleaderLog, hterm, show (s'.nodes p).log = (s.nodes p).log from congrArg Book.log hbook]
    exact (inv.nodes p).leader hold
  have hterms : (s.nodes p).currentTerm ≤ (s'.nodes p).currentTerm →
      ∀ v, (s.nodes v).currentTerm ≤ (s'.nodes v).currentTerm := by
    intro hp v
    by_cases hv : v = p
    · exact hv ▸ hp
    · rw [hother v hv]
  have hcast : (s.nodes p).lastLogTerm ≤ lastTerm →
      ((s.nodes p).currentTerm < term ∨ (term = (s.nodes p).currentTerm ∧
        ((s.nodes p).votedFor = none ∨ (s.nodes p).votedFor = some sender))) →
      (s.nodes p).currentTerm ≤ (s'.nodes p).currentTerm →
      ((s'.nodes p).role = .leader → (s.nodes p).role = .leader ∧
        (s'.nodes p).currentTerm = (s.nodes p).currentTerm) →
      Grows h s (h.castVote p term sender (s.nodes p).log) s' ∧
        HistoryInv (h.castVote p term sender (s.nodes p).log) ∧
        NodeInv C (h.castVote p term sender (s.nodes p).log) s' p := by
    intro hle hnew hterm hrole
    have hfreeVote := inv.election.cast hnew
    have hge : (s.nodes p).currentTerm ≤ term := by omega
    have g := Grows.cast (c := sender) hfreeVote hge hlogs (hterms hterm)
    refine ⟨g, ?_, hkeep _ rfl g hrole⟩
    apply inv.history.cast inv.election hfreeVote (inv.nodes p).traced
    refine Or.inr ⟨hvote, ?_, ?_⟩
    · rw [← lastLogTerm_eq, ← hlast]
      exact hle
    · intro heq
      rw [← lastLogTerm_eq, ← hlast] at heq
      have hlen := hsound hnew heq.symm
      omega
  have hrec : h.receive s p ⟨sender, term, .requestVote lastIndex lastTerm⟩ =
      if ((s.nodes p).requestVote term sender lastIndex lastTerm).2 = true then
        h.castVote p term sender (s.nodes p).log
      else h := rfl
  rw [hrec]
  have hout := requestVote_outcome (s.nodes p) term sender lastIndex lastTerm
  generalize (s.nodes p).requestVote term sender lastIndex lastTerm = r at hout hnode ⊢
  cases hout with
  | refused =>
      rw [if_neg Bool.false_ne_true]
      have hterm : (s'.nodes p).currentTerm = (s.nodes p).currentTerm := by rw [hnode]
      have g : Grows h s h s' := Grows.still hlogs (hterms (le_of_eq hterm.symm))
        (fun _ => List.prefix_rfl) rfl rfl (fun _ _ => id)
      exact ⟨g, inv.history, hkeep h rfl g (fun hrole => ⟨by rwa [hnode] at hrole, hterm⟩)⟩
  | steppedDown hlt =>
      rw [if_neg Bool.false_ne_true]
      have hterm : (s.nodes p).currentTerm ≤ (s'.nodes p).currentTerm := by
        rw [hnode]
        exact le_of_lt hlt
      have g : Grows h s h s' := Grows.still hlogs (hterms hterm)
        (fun _ => List.prefix_rfl) rfl rfl (fun _ _ => id)
      refine ⟨g, inv.history, hkeep h rfl g (fun hrole => ?_)⟩
      rw [hnode] at hrole
      cases hrole
  | granted hterm hv hle =>
      rw [if_pos rfl]
      refine hcast hle (Or.inr ⟨hterm, hv⟩) ?_ ?_
      · rw [hnode]
      · intro hrole
        rw [hnode] at hrole ⊢
        exact ⟨hrole, rfl⟩
  | grantedAnew hlt hle =>
      rw [if_pos rfl]
      refine hcast hle (Or.inl hlt) ?_ ?_
      · rw [hnode]
        exact le_of_lt hlt
      · intro hrole
        rw [hnode] at hrole
        cases hrole

/-- A node that commits more of the log it has. -/
theorem NodeInv.advance {i : String} (inv : NodeInv C h s i) (g : Grows h s h s')
    (hlog : (s'.nodes i).log = (s.nodes i).log)
    (hst : (s'.nodes i).standing = (s.nodes i).standing)
    (hle : (s.nodes i).commitIndex ≤ (s'.nodes i).commitIndex)
    (hcovered : Covered C h s (s.nodes i).log (s'.nodes i).commitIndex)
    (hacks : ∀ (index : Nat) (v : String), v ∈ (s'.nodes i).pendingAcks index →
      (s'.nodes i).commitIndex < index → v ∈ (s.nodes i).pendingAcks index ∨
        (v ∈ C.ids ∧ ∃ entry, (s.nodes i).log[index]? = some entry ∧ Held h s v entry.term index))
    (hel : s'.elections i ≠ none → s.elections i ≠ none) : NodeInv C h s' i := by
  have hrole : (s'.nodes i).role = (s.nodes i).role := congrArg Standing.role hst
  have hterm : (s'.nodes i).currentTerm = (s.nodes i).currentTerm :=
    congrArg Standing.currentTerm hst
  refine ⟨?_, ?_, ?_, ?_, ?_, ?_, ?_⟩
  · rw [hlog]
    exact inv.traced
  · rw [hlog, hterm]
    exact inv.bounded
  · rw [hterm]
    exact inv.nonneg
  · rw [hrole, hterm, hlog]
    exact inv.leader
  · rw [hlog]
    exact hcovered.mono g List.prefix_rfl
  · intro index v hv hlt
    have hheld : v ∈ C.ids ∧ ∃ entry, (s.nodes i).log[index]? = some entry ∧
        Held h s v entry.term index := by
      rcases hacks index v hv hlt with hold | hnew
      · exact inv.acks index v hold (by omega)
      · exact hnew
    obtain ⟨hid, entry, hentry, hheld⟩ := hheld
    rw [hlog]
    exact ⟨hid, entry, hentry, hheld.mono g (inv.traced.get_leaderLog hentry)⟩
  · rw [hlog, hterm]
    exact fun hopen => inv.standing (hel hopen)

/-- A step of one node that leaves the votes alone and grows its log at most. -/
theorem Grows.node {p : String} {d : DistributedStateMachine StateMap}
    (hlog : (s.nodes p).log <+: d.log) (hst : d.standing = (s.nodes p).standing) :
    Grows h s h (s.setNode p d) := by
  refine Grows.still ?_ ?_ (fun _ => List.prefix_rfl) rfl rfl (fun _ _ => id)
  · intro v
    by_cases hv : v = p
    · subst hv
      simpa [ClusterState.setNode] using hlog
    · simp [ClusterState.setNode, hv]
  · intro v
    by_cases hv : v = p
    · subst hv
      have hterm : d.currentTerm = (s.nodes v).currentTerm := congrArg Standing.currentTerm hst
      simp [ClusterState.setNode, hterm]
    · simp [ClusterState.setNode, hv]

theorem LogInv.setNode (inv : LogInv C h s) {p : String} {d : DistributedStateMachine StateMap}
    (hlog : (s.nodes p).log <+: d.log) (hst : d.standing = (s.nodes p).standing)
    (hp : NodeInv C h (s.setNode p d) p) :
    Grows h s h (s.setNode p d) ∧ LogInv C h (s.setNode p d) := by
  have g : Grows h s h (s.setNode p d) := Grows.node hlog hst
  refine ⟨g, inv.assemble g ?_ inv.history p hp ?_ (fun _ _ _ => rfl) (fun _ _ => Or.inl)⟩
  · rw [ClusterState.setNode_standings_self s hst]
    exact inv.election
  · intro v hv
    exact ⟨Function.update_of_ne hv _ _, id⟩

end Steps

end Prodinamik.Raft.LogInvariant
