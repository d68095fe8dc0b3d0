import Prodinamik.Raft.LogInvariant

namespace Prodinamik.Raft.LogSteps

open Lib Lib.Quorum Lib.TermLog Election LogInvariant DistributedStateMachine

variable {C : Cluster} {h h' : History} {s s' : ClusterState}

theorem deliver_heartbeat (inv : LogInv C h s) {p sender : String} {term commit : Int}
    (hmsg : Covered C h s (s.nodes sender).log commit)
    (hsound : HeartbeatSound (s.nodes p) (s.nodes sender) commit) :
    Grows h s h (s.setNode p ((s.nodes p).deliver ⟨sender, term, .heartbeat commit⟩)) ∧
      LogInv C h (s.setNode p ((s.nodes p).deliver ⟨sender, term, .heartbeat commit⟩)) := by
  have hbooks := heartbeat_books (s.nodes p) commit
  have hst := heartbeat_standing (s.nodes p) commit
  have hdeliver : (s.nodes p).deliver ⟨sender, term, .heartbeat commit⟩ =
      ((s.nodes p).heartbeat commit).1 := rfl
  rw [hdeliver]
  generalize ((s.nodes p).heartbeat commit).1 = d at hbooks hst ⊢
  have hlog : d.log = (s.nodes p).log := congrArg Book.log hbooks.book
  have hnode : (s.setNode p d).nodes p = d := Function.update_self _ _ _
  have hcommit := congrArg Book.commitIndex hbooks.book
  simp only [book_commitIndex] at hcommit
  have hlt := (inv.nodes p).covered.lt_length
  refine inv.setNode (by rw [hlog]) hst ((inv.nodes p).advance
    (Grows.node (by rw [hlog]) hst) ?_ ?_ ?_ ?_ ?_ id)
  · rw [hnode, hlog]
  · rw [hnode, hst]
  · rw [hnode, hcommit]
    split <;> omega
  · rw [hnode, hcommit]
    split
    · rename_i hnew
      intro k hk
      have hin : (min commit ((s.nodes p).log.length - 1)).toNat < (s.nodes p).log.length := by
        omega
      obtain ⟨entry', hentry', hterm⟩ := hsound hnew _ (List.getElem?_eq_getElem hin)
      have hagree := (inv.nodes p).traced.agree (inv.nodes sender).traced
        (List.getElem?_eq_getElem hin) hentry' hterm.symm
      obtain ⟨t, m, hkm, hcom, hpre⟩ := hmsg k (by omega)
      refine ⟨t, m, hkm, hcom, ?_⟩
      have hshort : (h.leaderLog t).take (k + 1) <+: (s.nodes sender).log.take
          ((min commit ((s.nodes p).log.length - 1)).toNat + 1) := by
        apply List.prefix_of_prefix_length_le hpre (List.take_prefix _ _)
        obtain ⟨hlen, -⟩ := List.getElem?_eq_some_iff.mp hentry'
        rw [List.length_take, List.length_take]
        omega
      rw [← hagree] at hshort
      exact hshort.trans (List.take_prefix _ _)
    · exact (inv.nodes p).covered
  · intro index v hv _
    left
    have hacks : d.pendingAcks = (s.nodes p).pendingAcks := congrArg Book.pendingAcks hbooks.book
    rwa [hnode, hacks] at hv

theorem deliver_appendEntries (inv : LogInv C h s) {p sender : String}
    {term prev prevTerm commit : Int} {entries : List LogEntry}
    (hmsg : MessageInv C h s p ⟨sender, term, .appendEntries entries prev prevTerm commit⟩)
    (hsound : AppendSound (s.nodes p) ⟨sender, term, .appendEntries entries prev prevTerm commit⟩
      entries prev prevTerm) (hfree : s.elections p = none) :
    Grows h s h (s.setNode p
        ((s.nodes p).deliver ⟨sender, term, .appendEntries entries prev prevTerm commit⟩)) ∧
      LogInv C h (s.setNode p
        ((s.nodes p).deliver ⟨sender, term, .appendEntries entries prev prevTerm commit⟩)) := by
  obtain ⟨hne, hchief, hnil, hprev, hlast, htraced, hbound, hcovered⟩ := hmsg
  simp only at hne hchief
  have hpos := List.length_pos_iff.mpr hnil
  have hdeliver : (s.nodes p).deliver ⟨sender, term, .appendEntries entries prev prevTerm commit⟩ =
      ((s.nodes p).appendEntries entries prev prevTerm commit).1 := rfl
  rw [hdeliver]
  cases hconflict : (s.nodes p).conflictTerm prev prevTerm with
  | some t =>
      have hsame : ((s.nodes p).appendEntries entries prev prevTerm commit).1 = s.nodes p := by
        rw [appendEntries, hconflict]
      rw [hsame, ClusterState.setNode, Function.update_eq_self]
      exact ⟨Grows.refl h s, inv⟩
  | none =>
      have hst := appendEntries_standing (s.nodes p) entries prev prevTerm commit
      have hlt := (inv.nodes p).covered.lt_length
      rcases hsound with hrefused | ⟨hempty, hterm⟩ | hpresent
      · exact absurd hconflict hrefused
      · simp only at hterm
        have hbooks := appendEntries_books (s.nodes p) commit hconflict
          (writeEntries_append (by rw [hempty]; simp; omega) entries)
        rw [hempty, List.nil_append] at hbooks
        rw [hempty, List.length_nil] at hlt
        generalize ((s.nodes p).appendEntries entries prev prevTerm commit).1 = d at hbooks hst ⊢
        have hlog : d.log = entries := congrArg Book.log hbooks.book
        have hcommit := congrArg Book.commitIndex hbooks.book
        simp only [book_commitIndex] at hcommit
        have hgrow : (s.nodes p).log <+: d.log := by
          rw [hempty]
          exact List.nil_prefix
        have g : Grows h s h (s.setNode p d) := Grows.node hgrow hst
        have hnode : (s.setNode p d).nodes p = d := Function.update_self _ _ _
        have hterm' : d.currentTerm = (s.nodes p).currentTerm :=
          congrArg Standing.currentTerm hst
        refine inv.setNode hgrow hst ⟨?_, ?_, ?_, ?_, ?_, ?_, ?_⟩
        · rw [hnode, hlog]
          exact htraced
        · rw [hnode, hlog, hterm', ← hterm]
          exact hbound
        · rw [hnode, hterm']
          exact (inv.nodes p).nonneg
        · intro hrole
          rw [hnode] at hrole
          have hrole' : (s.nodes p).role = .leader := by
            rw [← hrole]
            exact (congrArg Standing.role hst).symm
          have hself := inv.election.leader p hrole'
          rw [show (s.standings p).currentTerm = term from hterm.symm, hchief] at hself
          exact absurd (Option.some_injective _ hself).symm hne
        · rw [hnode, hlog, hcommit]
          apply Covered.mono g List.prefix_rfl
          split
          · exact hcovered.of_le (by omega)
          · intro k hk
            omega
        · intro index v hv hidx
          have hacks : d.pendingAcks = (s.nodes p).pendingAcks :=
            congrArg Book.pendingAcks hbooks.book
          rw [hnode] at hv hidx
          rw [hacks] at hv
          obtain ⟨-, entry, hentry, -⟩ := (inv.nodes p).acks index v hv (by omega)
          rw [hempty] at hentry
          simp at hentry
        · intro hopen
          exact absurd hfree hopen
      · have hwrite : writeEntries (s.nodes p).log (prev + 1) entries =
            ((s.nodes p).log, true) := by
          have := writeEntries_present (n := 0) hpresent
          simpa using this
        have hbooks := appendEntries_books (s.nodes p) commit hconflict hwrite
        generalize ((s.nodes p).appendEntries entries prev prevTerm commit).1 = d at hbooks hst ⊢
        have hlog : d.log = (s.nodes p).log := congrArg Book.log hbooks.book
        have hcommit := congrArg Book.commitIndex hbooks.book
        simp only [book_commitIndex] at hcommit
        have hnode : (s.setNode p d).nodes p = d := Function.update_self _ _ _
        refine inv.setNode (by rw [hlog]) hst ((inv.nodes p).advance
          (Grows.node (by rw [hlog]) hst) ?_ ?_ ?_ ?_ ?_ id)
        · rw [hnode, hlog]
        · rw [hnode, hst]
        · rw [hnode, hcommit]
          split <;> omega
        · rw [hnode, hcommit]
          split
          · refine Covered.of_le (min_le_left _ _) ?_
            have hin : prev < (s.nodes p).log.length := by
              obtain ⟨old, hold, -⟩ := hpresent (entries[0], 0)
                (List.mem_zipIdx_iff_getElem?.mpr (List.getElem?_eq_getElem hpos))
              by_contra hge
              simp only [Option.mem_def] at hold
              rw [PyList.get_of_nonneg _ (by omega), List.getElem?_eq_none (by omega)] at hold
              cases hold
            obtain ⟨entry, hentry, heterm⟩ := conflictTerm_none hconflict (by omega) hin
            rw [show prev.toNat = entries.length - 1 by omega] at hentry
            exact hcovered.mono (Grows.refl h s) (Traced.prefix_of_last htraced
              (inv.nodes p).traced hnil hentry (heterm.trans hlast))
          · exact (inv.nodes p).covered
        · intro index v hv _
          left
          have hacks : d.pendingAcks = (s.nodes p).pendingAcks :=
            congrArg Book.pendingAcks hbooks.book
          rwa [hnode, hacks] at hv

/-- A peer that holds an entry and is not ahead of its term. -/
theorem held_of_entry (inv : LogInv C h s) {p : String} {index : Nat} {entry : LogEntry}
    (hentry : (s.nodes p).log[index]? = some entry)
    (hterm : (s.nodes p).currentTerm ≤ entry.term) : Held h s p entry.term index where
  inLog := by
    rw [(inv.nodes p).traced.take_eq hentry]
    exact List.take_prefix _ _
  inVotes := by
    intro u hu hvote
    obtain ⟨c, hc⟩ := Option.ne_none_iff_exists'.mp hvote
    have hle : u ≤ (s.nodes p).currentTerm := inv.election.bounded p u c hc
    omega

/-- An entry that more than half of the nodes hold commits the log up to it. -/
theorem covered_of_quorum (inv : LogInv C h s) {i : String} {index : Nat} {entry : LogEntry}
    {q : Finset String} (hentry : (s.nodes i).log[index]? = some entry)
    (hq : ∀ v ∈ q, v ∈ C.ids ∧ Held h s v entry.term index) (hmaj : C.ids.length < 2 * q.card) :
    Covered C h s (s.nodes i).log index := by
  have htake := (inv.nodes i).traced.take_eq hentry
  have hleader := (inv.nodes i).traced.get_leaderLog hentry
  have hcom : Committed C h s entry.term index := by
    refine ⟨⟨entry, hleader, rfl⟩, q, ⟨fun v hv => List.mem_toFinset.mpr (hq v hv).1, ?_⟩,
      fun v hv => (hq v hv).2⟩
    rwa [List.toFinset_card_of_nodup C.nodup]
  intro k hk
  refine ⟨entry.term, index, by omega, hcom, ?_⟩
  have hshort : (h.leaderLog entry.term).take (k + 1) <+:
      (h.leaderLog entry.term).take (index + 1) :=
    List.take_prefix_take_left (by omega)
  rw [htake] at hshort
  exact hshort.trans (List.take_prefix _ _)

theorem ackEntry_step (inv : LogInv C h s) {i p : String} {index : Nat}
    (he : C.Enabled s (.ackEntry i index p)) (hs : Sound C s (.ackEntry i index p)) :
    Grows h s h (s.perform (.ackEntry i index p)) ∧
      LogInv C h (s.perform (.ackEntry i index p)) := by
  obtain ⟨hi, hfree, hpeer, hin, hsame⟩ := he
  have hbooks := ackEntry_books (s.nodes i) index p
  have hst := ackEntry_standing (s.nodes i) index p
  rw [ClusterState.perform]
  generalize ((s.nodes i).ackEntry index p).1 = d at hbooks hst ⊢
  have hlog : d.log = (s.nodes i).log := congrArg Book.log hbooks.book
  have hacks : d.pendingAcks = ((s.nodes i).recordAck index p).pendingAcks :=
    congrArg Book.pendingAcks hbooks.book
  have hcommit : d.commitIndex =
      if ((s.nodes i).recordAck index p).checkMajority index = true ∧
        (index : Int) > (s.nodes i).commitIndex then (index : Int)
      else (s.nodes i).commitIndex := congrArg Book.commitIndex hbooks.book
  have hnode : (s.setNode i d).nodes i = d := Function.update_self _ _ _
  have hentry := List.getElem?_eq_getElem hin
  have hheld : (s.nodes i).commitIndex < index →
      ∀ v ∈ ((s.nodes i).recordAck index p).pendingAcks index,
        v ∈ C.ids ∧ Held h s v (s.nodes i).log[index].term index := by
    intro hnew v hv
    rw [recordAck_pendingAcks, Function.update_self] at hv
    rcases Finset.mem_insert.mp hv with rfl | hold
    · have hpeers : (s.nodes i).peers = C.peers i := (inv.election.identity i).2
      rw [hpeers] at hpeer
      refine ⟨List.mem_of_mem_erase ((C.others i hi).mem_iff.mp hpeer), ?_⟩
      exact held_of_entry inv (hsame.trans hentry) ((hs hnew).1 _ hentry)
    · obtain ⟨hid, entry, hget, hold⟩ := (inv.nodes i).acks index v hold hnew
      obtain rfl : entry = (s.nodes i).log[index] := Option.some_injective _ (hget.symm.trans hentry)
      exact ⟨hid, hold⟩
  refine inv.setNode (by rw [hlog]) hst ((inv.nodes i).advance
    (Grows.node (by rw [hlog]) hst) ?_ ?_ ?_ ?_ ?_ id)
  · rw [hnode, hlog]
  · rw [hnode, hst]
  · rw [hnode, hcommit]
    split
    · rename_i hnew
      exact le_of_lt hnew.2
    · exact le_rfl
  · rw [hnode, hcommit]
    split
    · rename_i hnew
      exact covered_of_quorum inv hentry (hheld hnew.2) ((hs hnew.2).2 hnew.1)
    · exact (inv.nodes i).covered
  · intro index' v hv hlt
    rw [hnode] at hv hlt
    rw [hacks] at hv
    by_cases hidx : index' = index
    · subst hidx
      right
      have hnew : (s.nodes i).commitIndex < index' := by
        rw [hcommit] at hlt
        split at hlt
        · omega
        · exact hlt
      obtain ⟨hid, hv⟩ := hheld hnew v hv
      exact ⟨hid, _, hentry, hv⟩
    · left
      rwa [recordAck_pendingAcks, Function.update_of_ne (by omega)] at hv

/-- Where only one node has changed, the others' logs and terms grow too. -/
theorem grow_of_node {i : String} {d : DistributedStateMachine StateMap}
    (hnode : s'.nodes i = d) (hother : ∀ v, v ≠ i → s'.nodes v = s.nodes v)
    (hlog : (s.nodes i).log <+: d.log) (hterm : d.currentTerm = (s.nodes i).currentTerm) :
    (∀ v, (s.nodes v).log <+: (s'.nodes v).log) ∧
      ∀ v, (s.nodes v).currentTerm ≤ (s'.nodes v).currentTerm := by
  constructor
  · intro v
    by_cases hv : v = i
    · subst hv
      rwa [hnode]
    · rw [hother v hv]
  · intro v
    by_cases hv : v = i
    · subst hv
      rw [hnode, hterm]
    · rw [hother v hv]

/-- A term has one leader. -/
theorem term_ne_of_chief (inv : LogInv C h s) {term : Int} {i v : String}
    (hchief : ∀ c, h.chief term = some c → c = i) (hv : v ≠ i)
    (hrole : (s.nodes v).role = .leader) : (s.nodes v).currentTerm ≠ term := by
  intro heq
  have hchiefv : h.chief (s.nodes v).currentTerm = some v := inv.election.leader v hrole
  rw [heq] at hchiefv
  exact hv (hchief v hchiefv)

section Propose

variable {i : String} {command : Command} {d : DistributedStateMachine StateMap}

def proposedEntry (s : ClusterState) (i : String) (command : Command) : LogEntry :=
  ⟨(s.nodes i).currentTerm, (s.nodes i).log.length, command⟩

/-- What a leader that proposes a command has become. -/
structure Proposed (C : Cluster) (h : History) (s : ClusterState) (i : String) (command : Command)
    (d : DistributedStateMachine StateMap) : Prop where
  member : i ∈ C.ids
  leads : (s.nodes i).role = .leader
  chief : h.chief (s.nodes i).currentTerm = some i
  leaderLog : h.leaderLog (s.nodes i).currentTerm = (s.nodes i).log
  log : d.log = (s.nodes i).log ++ [proposedEntry s i command]
  acks : d.pendingAcks = ((s.nodes i).appendOwn command).pendingAcks
  commit : d.commitIndex =
    if ((s.nodes i).appendOwn command).checkMajority (s.nodes i).log.length = true then
      ((s.nodes i).log.length : Int)
    else (s.nodes i).commitIndex
  term : d.currentTerm = (s.nodes i).currentTerm
  nodeId : d.nodeId = i
  peers : d.peers = C.peers i

theorem proposed (inv : LogInv C h s) (hi : i ∈ C.ids) (hrole : (s.nodes i).role = .leader) :
    Proposed C h s i command ((s.nodes i).propose command).1 := by
  have hbooks := propose_books (s.nodes i) hrole command
  have hst := propose_standing (s.nodes i) command
  obtain ⟨hid, hpeers⟩ := inv.election.identity i
  exact
    { member := hi
      leads := hrole
      chief := inv.election.leader i hrole
      leaderLog := (inv.nodes i).leader hrole
      log := congrArg Book.log hbooks.book
      acks := congrArg Book.pendingAcks hbooks.book
      commit := congrArg Book.commitIndex hbooks.book
      term := congrArg Standing.currentTerm hst
      nodeId := (congrArg Standing.nodeId hst).trans hid
      peers := (congrArg Standing.peers hst).trans hpeers }

/-- The history and the state after the proposal. -/
def proposedHistory (h : History) (s : ClusterState) (i : String)
    (d : DistributedStateMachine StateMap) : History :=
  { h with leaderLog := Function.update h.leaderLog (s.nodes i).currentTerm d.log }

def proposedState (s : ClusterState) (i : String) (d : DistributedStateMachine StateMap) :
    ClusterState :=
  (s.setNode i d).send (toPeers d d.doReplicate)

theorem proposedState_self : (proposedState s i d).nodes i = d := Function.update_self _ _ _

theorem proposedState_other {v : String} (hv : v ≠ i) :
    (proposedState s i d).nodes v = s.nodes v := Function.update_of_ne hv _ _

theorem proposedHistory_leaderLog :
    (proposedHistory h s i d).leaderLog (s.nodes i).currentTerm = d.log :=
  Function.update_self _ _ _

namespace Proposed

variable (p : Proposed C h s i command d)
include p

theorem prefix_log : (s.nodes i).log <+: d.log := by
  rw [p.log]
  exact List.prefix_append _ _

theorem length_log : d.log.length = (s.nodes i).log.length + 1 := by
  rw [p.log, List.length_append, List.length_singleton]

theorem getElem?_log : d.log[(s.nodes i).log.length]? =
    some (proposedEntry s i command) := by
  rw [p.log]
  simp

theorem history (inv : LogInv C h s) : HistoryInv (proposedHistory h s i d) := by
  have hext := inv.history.extend (proposedEntry s i command) rfl
    (Option.ne_none_iff_exists'.mpr ⟨i, p.chief⟩)
  have hleader : h.leaderLog (proposedEntry s i command).term = (s.nodes i).log := p.leaderLog
  rw [hleader, ← p.log] at hext
  exact hext

theorem grows : Grows h s (proposedHistory h s i d) (proposedState s i d) := by
  obtain ⟨hlogs, hterms⟩ := grow_of_node proposedState_self
    (fun v hv => proposedState_other hv) p.prefix_log p.term
  refine Grows.still hlogs hterms ?_ rfl rfl (fun _ _ => id)
  intro t
  by_cases ht : t = (s.nodes i).currentTerm
  · subst ht
    rw [proposedHistory_leaderLog, p.leaderLog]
    exact p.prefix_log
  · simp only [proposedHistory, Function.update_of_ne ht]
    exact List.prefix_rfl

/-- The leader itself holds the new entry. -/
theorem held (inv : LogInv C h s) : Held (proposedHistory h s i d) (proposedState s i d) i
    (s.nodes i).currentTerm (s.nodes i).log.length where
  inLog := by
    rw [proposedHistory_leaderLog, ← p.length_log, List.take_length, proposedState_self]
  inVotes := by
    intro u hu hvote
    obtain ⟨c, hc⟩ := Option.ne_none_iff_exists'.mp hvote
    have hle : u ≤ (s.nodes i).currentTerm := inv.election.bounded i u c hc
    exact absurd (hu.trans_le hle) (lt_irrefl _)

theorem covered (inv : LogInv C h s) (hs : Sound C s (.propose i command)) :
    Covered C (proposedHistory h s i d) (proposedState s i d) d.log d.commitIndex := by
  rw [p.commit]
  split
  · rename_i hmaj
    have hsmall := hs p.leads hmaj
    have hlen := p.length_log
    intro k hk
    refine ⟨(s.nodes i).currentTerm, (s.nodes i).log.length, by omega,
      ⟨⟨proposedEntry s i command, ?_, rfl⟩, {i}, ⟨?_, ?_⟩, ?_⟩, ?_⟩
    · rw [proposedHistory_leaderLog, p.getElem?_log]
    · simpa using p.member
    · rw [List.toFinset_card_of_nodup C.nodup, Finset.card_singleton]
      omega
    · intro v hv
      obtain rfl := Finset.mem_singleton.mp hv
      exact p.held inv
    · rw [proposedHistory_leaderLog]
      exact List.take_prefix _ _
  · exact (inv.nodes i).covered.mono p.grows p.prefix_log

theorem commitIndex_lt (inv : LogInv C h s) {index : Nat} (hlt : d.commitIndex < index) :
    (s.nodes i).commitIndex < index := by
  have hcovered := (inv.nodes i).covered.lt_length
  rw [p.commit] at hlt
  split at hlt
  · omega
  · exact hlt

/-- Whoever is counted for an index holds its entry. -/
theorem counted (inv : LogInv C h s) {index : Nat} {v : String} (hv : v ∈ d.pendingAcks index)
    (hlt : d.commitIndex < index) : v ∈ C.ids ∧ ∃ entry, d.log[index]? = some entry ∧
      Held (proposedHistory h s i d) (proposedState s i d) v entry.term index := by
  rw [p.acks, appendOwn_pendingAcks] at hv
  by_cases hidx : index = (s.nodes i).log.length
  · subst hidx
    rw [Function.update_self, Finset.mem_singleton] at hv
    have hvi : v = i := hv.trans (inv.election.identity i).1
    rw [hvi]
    exact ⟨p.member, _, p.getElem?_log, p.held inv⟩
  · rw [Function.update_of_ne (by omega)] at hv
    obtain ⟨hids, e, hget, hold⟩ := (inv.nodes i).acks index v hv (p.commitIndex_lt inv hlt)
    exact ⟨hids, e, prefix_getElem? p.prefix_log hget,
      hold.mono p.grows ((inv.nodes i).traced.get_leaderLog hget)⟩

theorem traced (inv : LogInv C h s) : TracedLog (proposedHistory h s i d) d.log := by
  have htraced := (p.history inv).leaderTraced (s.nodes i).currentTerm
  rwa [proposedHistory_leaderLog] at htraced

theorem bounded (inv : LogInv C h s) : ∀ entry ∈ d.log, entry.term ≤ d.currentTerm := by
  have hbounded := (p.history inv).leaderBounded (s.nodes i).currentTerm
  rwa [proposedHistory_leaderLog, ← p.term] at hbounded

/-- The entries that are sent to the other nodes. -/
theorem message (inv : LogInv C h s) (hs : Sound C s (.propose i command)) {q : String}
    {msg : RaftMessage} (hmem : (q, msg) ∈ toPeers d d.doReplicate) :
    MessageInv C (proposedHistory h s i d) (proposedState s i d) q msg := by
  obtain ⟨peer, hpeer, heq⟩ := List.mem_map.mp hmem
  obtain ⟨rfl, rfl⟩ := Prod.mk.inj heq
  rw [p.peers, (C.others i p.member).mem_iff, C.nodup.mem_erase_iff] at hpeer
  have hne : d.log ≠ [] := by
    rw [p.log]
    simp
  refine ⟨?_, ?_, hne, rfl, lastLogTerm_eq _, p.traced inv, p.bounded inv, p.covered inv hs⟩
  · change peer ≠ d.nodeId
    rw [p.nodeId]
    exact hpeer.1
  · change h.chief d.currentTerm = some d.nodeId
    rw [p.nodeId, p.term]
    exact p.chief

theorem node (inv : LogInv C h s) (hs : Sound C s (.propose i command))
    (hfree : s.elections i = none) :
    NodeInv C (proposedHistory h s i d) (proposedState s i d) i := by
  refine ⟨?_, ?_, ?_, ?_, ?_, ?_, fun hopen => absurd hfree hopen⟩
  all_goals rw [proposedState_self]
  · exact p.traced inv
  · exact p.bounded inv
  · rw [p.term]
    exact (inv.nodes i).nonneg
  · rw [p.term]
    exact fun _ => proposedHistory_leaderLog
  · exact p.covered inv hs
  · exact fun _ _ => p.counted inv

end Proposed

theorem propose_step (inv : LogInv C h s) (he : C.Enabled s (.propose i command))
    (hs : Sound C s (.propose i command)) :
    Grows h s (h.record s (.propose i command)) (s.perform (.propose i command)) ∧
      LogInv C (h.record s (.propose i command)) (s.perform (.propose i command)) := by
  have hel := step_inv inv.election he hs.decided
  by_cases hrole : (s.nodes i).role = .leader
  · have p : Proposed C h s i command ((s.nodes i).propose command).1 := proposed inv he.1 hrole
    simp only [ClusterState.perform, History.record, if_pos hrole] at hel ⊢
    generalize ((s.nodes i).propose command).1 = d at p hel ⊢
    refine ⟨p.grows, inv.assemble p.grows hel (p.history inv) i (p.node inv hs he.2) ?_ ?_ ?_⟩
    · exact fun v hv => ⟨proposedState_other hv, id⟩
    · intro v hv hrolev
      have hchief : ∀ c, h.chief (s.nodes i).currentTerm = some c → c = i :=
        fun c hc => Option.some_injective _ (hc.symm.trans p.chief)
      exact Function.update_of_ne (term_ne_of_chief inv hchief hv hrolev) _ _
    · intro q msg hmem
      rcases List.mem_append.mp hmem with hnew | hold
      · exact Or.inr (p.message inv hs hnew)
      · exact Or.inl hold
  · have hsame : ((s.nodes i).propose command).1 = s.nodes i := by
      rw [propose, if_pos hrole]
    rw [ClusterState.perform, History.record, if_neg hrole, if_neg hrole, hsame,
      ClusterState.setNode, Function.update_eq_self]
    exact ⟨Grows.refl h s, inv⟩

end Propose

theorem standForElection_step (inv : LogInv C h s) {i : String}
    (he : C.Enabled s (.standForElection i)) :
    Grows h s (h.record s (.standForElection i)) (s.perform (.standForElection i)) ∧
      LogInv C (h.record s (.standForElection i)) (s.perform (.standForElection i)) := by
  have hel' := step_inv inv.election he trivial
  have hid : (s.nodes i).nodeId = i := (inv.election.identity i).1
  have hnone : h.vote i ((s.nodes i).currentTerm + 1) = none := by
    rw [Option.eq_none_iff_forall_ne_some]
    intro c hc
    have hle : (s.nodes i).currentTerm + 1 ≤ (s.nodes i).currentTerm :=
      inv.election.bounded i _ c hc
    omega
  have hnode : (s.perform (.standForElection i)).nodes i = (s.nodes i).standForElection :=
    Function.update_self _ _ _
  have hother : ∀ v, v ≠ i → (s.perform (.standForElection i)).nodes v = s.nodes v :=
    fun v hv => Function.update_of_ne hv _ _
  have g : Grows h s (h.record s (.standForElection i)) (s.perform (.standForElection i)) := by
    refine Grows.cast (Or.inl hnone) (by omega) ?_ ?_
    · intro v
      by_cases hv : v = i
      · subst hv
        rw [hnode]
        exact List.prefix_rfl
      · rw [hother v hv]
    · intro v
      by_cases hv : v = i
      · subst hv
        rw [hnode, standForElection_currentTerm]
        omega
      · rw [hother v hv]
  refine ⟨g, inv.assemble g hel' ?_ i ?_ ?_ (fun _ _ _ => rfl) (fun _ _ => Or.inl)⟩
  · exact inv.history.cast inv.election (Or.inl hnone) (inv.nodes i).traced
      (Or.inl ⟨rfl, hnone⟩)
  · refine (inv.nodes i).keep g (by rw [hnode]; rfl) ?_ ?_
    · intro hrole
      rw [hnode] at hrole
      cases hrole
    · intro _
      rw [hnode, standForElection_log, standForElection_currentTerm, History.record,
        castVote_seen_new h i _ hnone]
      refine ⟨rfl, fun entry hentry => ?_⟩
      have := (inv.nodes i).bounded entry hentry
      omega
  · intro v hv
    refine ⟨hother v hv, fun hopen => ?_⟩
    rwa [ClusterState.perform, ClusterState.setElection_elections, Function.update_of_ne hv,
      ClusterState.setNode_elections] at hopen

theorem askVote_step (inv : LogInv C h s) {i : String} (he : C.Enabled s (.askVote i))
    (hs : Sound C s (.askVote i)) :
    Grows h s (h.record s (.askVote i)) (s.perform (.askVote i)) ∧
      LogInv C (h.record s (.askVote i)) (s.perform (.askVote i)) := by
  have hel' := step_inv inv.election he trivial
  obtain ⟨hi, p, hnext, hfree⟩ := he
  obtain ⟨rest, votes, hb⟩ := ClusterState.mem_nextPeer hnext
  have hopen : s.elections i ≠ none := Option.ne_none_iff_exists'.mpr ⟨_, hb⟩
  have hne : p ≠ i := by
    rintro rfl
    exact hopen hfree
  have hmsg := checkVote_inv inv hopen p
  have hsound := hs p hnext
  have hrec : h.record s (.askVote i) = h.receive s p (s.nodes i).checkVote := by
    simp only [History.record, hb]
  have hnodes : (s.perform (.askVote i)).nodes =
      Function.update s.nodes p ((s.nodes p).deliver (s.nodes i).checkVote) := by
    simp only [ClusterState.perform, hb]
    rfl
  have hels : ∀ v, v ≠ i → (s.perform (.askVote i)).elections v = s.elections v := by
    intro v hv
    simp only [ClusterState.perform, hb]
    exact Function.update_of_ne hv _ _
  obtain ⟨g, hist, hp⟩ := receive_vote inv hmsg hsound hnodes ((hels p hne).trans hfree)
  rw [hrec] at hel' ⊢
  refine ⟨g, inv.assemble g hel' hist p hp ?_ ?_ ?_⟩
  · intro v hv
    refine ⟨by rw [hnodes, Function.update_of_ne hv], fun hv' => ?_⟩
    by_cases hvi : v = i
    · exact hvi ▸ hopen
    · rwa [hels v hvi] at hv'
  · intro v hv _
    rw [History.receive]
    split <;> rfl
  · intro q msg hmem
    simp only [ClusterState.perform, hb] at hmem
    exact Or.inl hmem

theorem askVoteUnanswered_step (inv : LogInv C h s) {i : String}
    (he : C.Enabled s (.askVoteUnanswered i)) :
    Grows h s (h.record s (.askVoteUnanswered i)) (s.perform (.askVoteUnanswered i)) ∧
      LogInv C (h.record s (.askVoteUnanswered i)) (s.perform (.askVoteUnanswered i)) := by
  have hel' := step_inv inv.election he trivial
  obtain ⟨hi, hnext⟩ := he
  obtain ⟨p, hnext⟩ := Option.isSome_iff_exists.mp hnext
  obtain ⟨rest, votes, hb⟩ := ClusterState.mem_nextPeer hnext
  have hopen : s.elections i ≠ none := Option.ne_none_iff_exists'.mpr ⟨_, hb⟩
  have hmsg := checkVote_inv inv hopen p
  simp only [History.record, ClusterState.perform, hb] at hel' ⊢
  have g : Grows h s h ((s.setElection i (some ⟨rest, votes⟩)).send [(p, (s.nodes i).checkVote)]) :=
    Grows.still (fun _ => List.prefix_rfl) (fun _ => le_rfl) (fun _ => List.prefix_rfl) rfl rfl
      (fun _ _ => id)
  refine ⟨g, inv.assemble g hel' inv.history i ?_ ?_ (fun _ _ _ => rfl) ?_⟩
  · refine (inv.nodes i).keep g rfl (inv.nodes i).leader (fun _ => ?_)
    exact (inv.nodes i).standing hopen
  · intro v hv
    refine ⟨rfl, fun hv' => ?_⟩
    rwa [ClusterState.send_elections, ClusterState.setElection_elections,
      Function.update_of_ne hv] at hv'
  · intro q msg hmem
    rcases List.mem_cons.mp hmem with heq | hold
    · obtain ⟨rfl, rfl⟩ := Prod.mk.inj heq
      exact Or.inr (hmsg.mono g)
    · exact Or.inl hold

theorem heartbeat_inv {i : String} (inv : NodeInv C h s i) (hid : (s.nodes i).nodeId = i) (p : String) :
    MessageInv C h s p (s.nodes i).doHeartbeat := by
  rw [doHeartbeat, hid, MessageInv]
  exact inv.covered

theorem broadcastHeartbeat_step (inv : LogInv C h s) (i : String) :
    Grows h s h (s.perform (.broadcastHeartbeat i)) ∧
      LogInv C h (s.perform (.broadcastHeartbeat i)) := by
  have g : Grows h s h (s.perform (.broadcastHeartbeat i)) :=
    Grows.still (fun _ => List.prefix_rfl) (fun _ => le_rfl) (fun _ => List.prefix_rfl) rfl rfl
      (fun _ _ => id)
  refine ⟨g, inv.assemble g inv.election inv.history i ?_ (fun v _ => ⟨rfl, id⟩)
    (fun _ _ _ => rfl) ?_⟩
  · exact (inv.nodes i).keep g rfl (inv.nodes i).leader (inv.nodes i).standing
  · intro q msg hmem
    rcases List.mem_append.mp hmem with hnew | hold
    · obtain ⟨peer, -, heq⟩ := List.mem_map.mp hnew
      obtain ⟨rfl, rfl⟩ := Prod.mk.inj heq
      exact Or.inr ((heartbeat_inv (inv.nodes i) (inv.election.identity i).1 _).mono g)
    · exact Or.inl hold

theorem countVotes_log (inv : LogInv C h s) {i : String} (he : C.Enabled s (.countVotes i))
    (hs : Sound C s (.countVotes i)) :
    Grows h s (h.record s (.countVotes i)) (s.perform (.countVotes i)) ∧
      LogInv C (h.record s (.countVotes i)) (s.perform (.countVotes i)) := by
  have hel' := step_inv inv.election he hs.decided
  obtain ⟨hi, ballot, hb, -⟩ := he
  rw [Option.mem_def] at hb
  have hopen : s.elections i ≠ none := Option.ne_none_iff_exists'.mpr ⟨_, hb⟩
  have hid : (s.nodes i).nodeId = i := (inv.election.identity i).1
  obtain ⟨hseen, hsmall⟩ := (inv.nodes i).standing hopen
  let d := (s.nodes i).countVotes ballot.votes
  have hd : d.book = (s.nodes i).book ∧ d.currentTerm = (s.nodes i).currentTerm ∧
      d.nodeId = i ∧ d.commitIndex = (s.nodes i).commitIndex := by
    simp only [d, countVotes]
    split
    · exact ⟨rfl, rfl, hid, rfl⟩
    · exact ⟨rfl, rfl, hid, rfl⟩
  have hnodes : (s.perform (.countVotes i)).nodes = Function.update s.nodes i d := by
    simp only [ClusterState.perform, hb]
    split <;> rfl
  have hels : (s.perform (.countVotes i)).elections = Function.update s.elections i none := by
    simp only [ClusterState.perform, hb]
    split <;> rfl
  have hflight : ∀ q msg, (q, msg) ∈ (s.perform (.countVotes i)).inFlight →
      (q, msg) ∈ s.inFlight ∨ msg = d.doHeartbeat := by
    intro q msg hmem
    simp only [ClusterState.perform, hb] at hmem
    split at hmem
    · rcases List.mem_append.mp hmem with hnew | hold
      · obtain ⟨peer, -, heq⟩ := List.mem_map.mp hnew
        exact Or.inr (Prod.mk.inj heq).2.symm
      · exact Or.inl hold
    · exact Or.inl hmem
  generalize s.perform (.countVotes i) = s' at hel' hnodes hels hflight ⊢
  have hnode : s'.nodes i = d := by rw [hnodes, Function.update_self]
  have hother : ∀ v, v ≠ i → s'.nodes v = s.nodes v ∧ (s'.elections v ≠ none →
      s.elections v ≠ none) := by
    intro v hv
    rw [hnodes, hels, Function.update_of_ne hv, Function.update_of_ne hv]
    exact ⟨rfl, id⟩
  have hlog : d.log = (s.nodes i).log := congrArg Book.log hd.1
  obtain ⟨hlogs, hterms⟩ := grow_of_node hnode (fun v hv => (hother v hv).1)
    (hlog ▸ List.prefix_rfl) hd.2.1
  have hdone : s'.elections i = none := by rw [hels, Function.update_self]
  have hbeat : ∀ {h' : History}, NodeInv C h' s' i → ∀ q msg, (q, msg) ∈ s'.inFlight →
      (q, msg) ∈ s.inFlight ∨ MessageInv C h' s' q msg := by
    intro h' hnodeInv q msg hmem
    rcases hflight q msg hmem with hold | rfl
    · exact Or.inl hold
    · right
      have hinv := heartbeat_inv hnodeInv (by rw [hnode]; exact hd.2.2.1) q
      rwa [hnode] at hinv
  simp only [History.record, hb] at hel' ⊢
  by_cases hmaj : ballot.votes > (s.nodes i).peers.length / 2
  · rw [if_pos hmaj] at hel' ⊢
    have hnone : h.chief (s.nodes i).currentTerm = none :=
      inv.election.noChief hb (hs ballot hb hmaj)
    have hchief : ∀ t c, h.chief t = some c →
        (h.crown (s.nodes i).currentTerm i (s.nodes i).log).chief t = some c := by
      intro t c hc
      have ht : t ≠ (s.nodes i).currentTerm := by
        rintro rfl
        exact absurd (hc.symm.trans hnone) (by simp)
      simpa [History.crown, ht] using hc
    have hgrow : ∀ t, h.leaderLog t <+:
        (h.crown (s.nodes i).currentTerm i (s.nodes i).log).leaderLog t := by
      intro t
      by_cases ht : t = (s.nodes i).currentTerm
      · rw [ht, inv.history.chiefless _ hnone]
        exact List.nil_prefix
      · simp [History.crown, ht]
    have g : Grows h s (h.crown (s.nodes i).currentTerm i (s.nodes i).log) s' :=
      Grows.still hlogs hterms hgrow rfl rfl hchief
    have hnodeInv : NodeInv C (h.crown (s.nodes i).currentTerm i (s.nodes i).log) s' i := by
      refine (inv.nodes i).keep g (by rw [hnode, hd.1]) ?_ (fun hv => absurd hdone hv)
      intro _
      rw [hnode, hd.2.1, hlog]
      exact Function.update_self _ _ _
    refine ⟨g, inv.assemble g hel' ?_ i hnodeInv hother ?_ (hbeat hnodeInv)⟩
    · exact inv.history.crown hnone (inv.nodes i).nonneg (inv.nodes i).traced hseen hsmall
    · intro v hv hrole
      have hchief' : ∀ c, h.chief (s.nodes i).currentTerm = some c → c = i :=
        fun c hc => absurd (hc.symm.trans hnone) (Option.some_ne_none c)
      exact Function.update_of_ne (term_ne_of_chief inv hchief' hv hrole) _ _
  · rw [if_neg hmaj] at hel' ⊢
    have g : Grows h s h s' := Grows.still hlogs hterms (fun _ => List.prefix_rfl) rfl rfl
      (fun _ _ => id)
    have hsame : d = s.nodes i := by
      simp only [d, countVotes, if_neg hmaj]
    have hnodeInv : NodeInv C h s' i := by
      refine (inv.nodes i).keep g (by rw [hnode, hd.1]) ?_ (fun hv => absurd hdone hv)
      rw [hnode, hsame]
      exact (inv.nodes i).leader
    exact ⟨g, inv.assemble g hel' inv.history i hnodeInv hother (fun _ _ _ => rfl)
      (hbeat hnodeInv)⟩

/-- A response that arrives as a message is ignored. -/
theorem keep_step (inv : LogInv C h s) (p : String) {msg : RaftMessage}
    (hmsg : (s.nodes p).handleRaftMessage msg = (s.nodes p, none)) :
    Grows h s (h.record s (.deliver p msg)) (s.perform (.deliver p msg)) ∧
      LogInv C (h.record s (.deliver p msg)) (s.perform (.deliver p msg)) := by
  have hrec : h.record s (.deliver p msg) = h := by
    rw [History.record, History.receive, hmsg]
    rfl
  have hsame : s.perform (.deliver p msg) = s := by
    rw [ClusterState.perform, deliver, hmsg, ClusterState.setNode, Function.update_eq_self]
  rw [hrec, hsame]
  exact ⟨Grows.refl h s, inv⟩

theorem deliver_step (inv : LogInv C h s) {p : String} {msg : RaftMessage}
    (he : C.Enabled s (.deliver p msg)) (hs : Sound C s (.deliver p msg)) :
    Grows h s (h.record s (.deliver p msg)) (s.perform (.deliver p msg)) ∧
      LogInv C (h.record s (.deliver p msg)) (s.perform (.deliver p msg)) := by
  have hel' := step_inv inv.election he trivial
  obtain ⟨hp, hmem, hfree⟩ := he
  have hmsg := inv.messages p msg hmem
  obtain ⟨sender, term, data⟩ := msg
  cases data with
  | requestVote lastIndex lastTerm =>
      have hfree' : s.elections p = none := hfree.resolve_right Bool.false_ne_true
      obtain ⟨g, hist, hnode⟩ := receive_vote inv hmsg hs
        (show (s.perform (.deliver p ⟨sender, term, .requestVote lastIndex lastTerm⟩)).nodes = _
          from rfl) hfree'
      refine ⟨g, inv.assemble g hel' hist p hnode ?_ ?_ (fun _ _ => Or.inl)⟩
      · exact fun v hv => ⟨Function.update_of_ne hv _ _, id⟩
      · intro v hv _
        rw [History.record, History.receive]
        split <;> rfl
  | appendEntries entries prev prevTerm commit =>
      have hrec : h.record s (.deliver p ⟨sender, term, .appendEntries entries prev prevTerm
          commit⟩) = h := by
        rw [History.record, History.receive, notGranted_appendEntries]
        rfl
      rw [hrec]
      exact deliver_appendEntries inv hmsg hs (hfree.resolve_right Bool.false_ne_true)
  | heartbeat commit =>
      rw [History.record, (heartbeat_received h s p rfl).1]
      exact deliver_heartbeat inv hmsg hs
  | requestVoteResponse granted => exact keep_step inv p rfl
  | appendEntriesResponse success index term' => exact keep_step inv p rfl
  | heartbeatResponse ok => exact keep_step inv p rfl

theorem step_log (inv : LogInv C h s) {action : Action} (he : C.Enabled s action)
    (hs : Sound C s action) :
    Grows h s (h.record s action) (s.perform action) ∧
      LogInv C (h.record s action) (s.perform action) := by
  cases action with
  | standForElection i => exact standForElection_step inv he
  | askVote i => exact askVote_step inv he hs
  | askVoteUnanswered i => exact askVoteUnanswered_step inv he
  | countVotes i => exact countVotes_log inv he hs
  | deliver p msg => exact deliver_step inv he hs
  | propose i command => exact propose_step inv he hs
  | ackEntry i index p => exact ackEntry_step inv he hs
  | broadcastHeartbeat i => exact broadcastHeartbeat_step inv i

theorem run_log (inv : LogInv C h s) {actions : List Action}
    (hrun : s.AlongRun (fun s action => C.Enabled s action ∧ Sound C s action) actions) :
    Grows h s (h.after s actions) (s.run actions) ∧ LogInv C (h.after s actions) (s.run actions) := by
  induction actions generalizing h s with
  | nil => exact ⟨Grows.refl h s, inv⟩
  | cons action actions ih =>
      obtain ⟨g, inv'⟩ := step_log inv hrun.1.1 hrun.1.2
      obtain ⟨g', inv''⟩ := ih inv' hrun.2
      exact ⟨g.trans g', inv''⟩

end Prodinamik.Raft.LogSteps
