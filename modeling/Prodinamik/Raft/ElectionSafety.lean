import Mathlib.Data.Finset.Max
import Prodinamik.Raft.Election

namespace Prodinamik.Raft.ElectionSafety

open Election DistributedStateMachine

/-- No two nodes ever become leader with the same term, at the same time or
one after the other. -/
def ElectionSafe (C : Cluster) : Prop :=
  ∀ first later : List Action, C.start.AlongRun C.Enabled (first ++ later) →
    ∀ i ∈ C.ids, ∀ j ∈ C.ids,
      ((C.start.run first).nodes i).role = .leader →
      ((C.start.run (first ++ later)).nodes j).role = .leader →
      ((C.start.run first).nodes i).currentTerm =
        ((C.start.run (first ++ later)).nodes j).currentTerm → i = j

theorem peers_length (C : Cluster) {i : String} (hi : i ∈ C.ids) :
    (C.peers i).length = C.ids.length - 1 := by
  rw [(C.others i hi).length_eq, List.length_erase_of_mem hi]

/-- With an odd number of nodes, more votes than half the peers are the votes
of more than half the nodes. -/
theorem decided_of_odd {C : Cluster} {h : History} {s : ClusterState} {action : Action}
    (hodd : C.ids.length % 2 = 1) (inv : ElectionInv C h s.standings s.elections)
    (he : C.Enabled s action) : Decided C s action := by
  cases action with
  | countVotes i =>
      intro ballot hb hmaj
      have hpeers : (s.nodes i).peers = C.peers i := (inv.identity i).2
      rw [hpeers, peers_length C he.1] at hmaj
      omega
  | _ => trivial

theorem decided_run {C : Cluster} {h : History} {s : ClusterState} {actions : List Action}
    (hodd : C.ids.length % 2 = 1) (inv : ElectionInv C h s.standings s.elections)
    (hrun : s.AlongRun C.Enabled actions) :
    s.AlongRun (fun s action => C.Enabled s action ∧ Decided C s action) actions := by
  induction actions generalizing h s with
  | nil => trivial
  | cons action actions ih =>
      have hd := decided_of_odd hodd inv hrun.1
      exact ⟨⟨hrun.1, hd⟩, ih (step_inv inv hrun.1 hd) hrun.2⟩

theorem electionSafe_of_odd {C : Cluster} (hodd : C.ids.length % 2 = 1) : ElectionSafe C := by
  intro first later hrun i hi j hj hli hlj hterm
  have hdec := decided_run hodd (start_inv C) hrun
  obtain ⟨hfirst, hlater⟩ := ClusterState.alongRun_append.mp hdec
  have inv := run_inv (start_inv C) hfirst
  have inv' := run_inv (start_inv C) hdec
  have hci := after_chief inv hlater (inv.leader i hli)
  have hcj := inv'.leader j hlj
  rw [← History.after_append] at hci
  have hterm' : ((C.start.run first).standings i).currentTerm =
      ((C.start.run (first ++ later)).standings j).currentTerm := hterm
  rw [hterm', hcj] at hci
  exact (Option.some_injective _ hci).symm

section Even

variable {C : Cluster} {s : ClusterState} {i : String}

/-- A node that nothing has happened to yet. -/
structure Untouched (C : Cluster) (s : ClusterState) (p : String) : Prop where
  node : s.nodes p = C.start.nodes p
  unlocked : s.elections p = none

theorem grants_first {p : String} {d : DistributedStateMachine StateMap}
    (hp : Untouched C s p) (hterm : 0 < d.currentTerm)
    (hlog : (C.start.nodes p).lastLogTerm ≤ d.lastLogTerm) :
    voteGranted ((s.nodes p).handleRaftMessage d.checkVote).2 = true := by
  rw [hp.node]
  exact requestVote_newTerm hterm hlog d.nodeId _

/-- Ask every peer in turn, and have just the chosen ones answer. -/
def askAll (i : String) (willing : List String) (peers : List String) : List Action :=
  peers.map fun p => if p ∈ willing then .askVote i else .askVoteUnanswered i

structure Asked (C : Cluster) (s s' : ClusterState) (i : String) (willing : List String) : Prop where
  candidate : s'.nodes i = s.nodes i
  others : ∀ p, p ∉ willing → s'.nodes p = s.nodes p
  elections : ∀ p, p ≠ i → s'.elections p = s.elections p

theorem askAll_run (willing : List String) {awaiting : List String} {votes : Nat} (hi : i ∈ C.ids)
    (hnd : awaiting.Nodup) (hb : s.elections i = some ⟨awaiting, votes⟩)
    (hterm : 0 < (s.nodes i).currentTerm) (hself : i ∉ willing)
    (hready : ∀ p ∈ awaiting, p ∈ willing → Untouched C s p ∧
      (C.start.nodes p).lastLogTerm ≤ (s.nodes i).lastLogTerm) :
    s.AlongRun C.Enabled (askAll i willing awaiting) ∧
      (s.run (askAll i willing awaiting)).elections i =
        some ⟨[], votes + (awaiting.filter (· ∈ willing)).length⟩ ∧
      Asked C s (s.run (askAll i willing awaiting)) i willing := by
  induction awaiting generalizing s votes with
  | nil => exact ⟨trivial, hb, rfl, fun _ _ => rfl, fun _ _ => rfl⟩
  | cons p rest ih =>
      obtain ⟨hpr, hnd'⟩ := List.nodup_cons.mp hnd
      have hnext : p ∈ s.nextPeer i := by simp [ClusterState.nextPeer, hb]
      by_cases hp : p ∈ willing
      · obtain ⟨hfree, hlog⟩ := hready p List.mem_cons_self hp
        have hpi : p ≠ i := fun heq => hself (heq ▸ hp)
        have hgrant := grants_first hfree hterm hlog
        have hi' : (s.perform (.askVote i)).nodes i = s.nodes i := by
          simp only [ClusterState.perform, hb]
          exact Function.update_of_ne hpi.symm _ _
        have hb' : (s.perform (.askVote i)).elections i = some ⟨rest, votes + 1⟩ := by
          simp only [ClusterState.perform, hb, hgrant, if_true]
          exact Function.update_self _ _ _
        have hnode : ∀ v, v ≠ p → (s.perform (.askVote i)).nodes v = s.nodes v := by
          intro v hv
          simp only [ClusterState.perform, hb]
          exact Function.update_of_ne hv _ _
        have hel : ∀ v, v ≠ i → (s.perform (.askVote i)).elections v = s.elections v := by
          intro v hv
          simp only [ClusterState.perform, hb]
          exact Function.update_of_ne hv _ _
        obtain ⟨hrun, hdone, hc, ho, he⟩ := ih hnd' hb' (hi' ▸ hterm) (by
          intro v hv hvw
          obtain ⟨hfv, hlv⟩ := hready v (List.mem_cons_of_mem p hv) hvw
          have hvp : v ≠ p := fun heq => hpr (heq ▸ hv)
          have hvi : v ≠ i := fun heq => hself (heq ▸ hvw)
          exact ⟨⟨(hnode v hvp).trans hfv.node, (hel v hvi).trans hfv.unlocked⟩, hi' ▸ hlv⟩)
        simp only [askAll, List.map_cons, if_pos hp]
        refine ⟨⟨⟨hi, p, hnext, hfree.unlocked⟩, hrun⟩, ?_, hc.trans hi', ?_, ?_⟩
        · rw [List.filter_cons_of_pos (by simpa using hp), List.length_cons]
          exact hdone.trans (by rw [Nat.add_assoc, Nat.add_comm 1])
        · intro v hv
          exact (ho v hv).trans (hnode v (fun heq => hv (heq ▸ hp)))
        · exact fun v hv => (he v hv).trans (hel v hv)
      · have hb' : (s.perform (.askVoteUnanswered i)).elections i = some ⟨rest, votes⟩ := by
          simp only [ClusterState.perform, hb]
          exact Function.update_self _ _ _
        have hnode : (s.perform (.askVoteUnanswered i)).nodes = s.nodes := by
          simp only [ClusterState.perform, hb]
          rfl
        have hel : ∀ v, v ≠ i → (s.perform (.askVoteUnanswered i)).elections v = s.elections v := by
          intro v hv
          simp only [ClusterState.perform, hb]
          exact Function.update_of_ne hv _ _
        obtain ⟨hrun, hdone, hc, ho, he⟩ := ih hnd' hb' (hnode ▸ hterm) (by
          intro v hv hvw
          obtain ⟨hfv, hlv⟩ := hready v (List.mem_cons_of_mem p hv) hvw
          have hvi : v ≠ i := fun heq => hself (heq ▸ hvw)
          exact ⟨⟨hnode ▸ hfv.node, (hel v hvi).trans hfv.unlocked⟩, hnode ▸ hlv⟩)
        simp only [askAll, List.map_cons, if_neg hp]
        refine ⟨⟨⟨hi, Option.isSome_iff_exists.mpr ⟨p, hnext⟩⟩, hrun⟩, ?_, hnode ▸ hc, ?_, ?_⟩
        · rw [List.filter_cons_of_neg (by simpa using hp)]
          exact hdone
        · intro v hv
          exact hnode ▸ ho v hv
        · exact fun v hv => (he v hv).trans (hel v hv)

/-- The whole become_candidate call of node i. -/
def elect (C : Cluster) (i : String) (willing : List String) : List Action :=
  .standForElection i :: (askAll i willing (C.peers i) ++ [.countVotes i])

theorem elect_run (willing : List String) (hi : i ∈ C.ids) (hfresh : Untouched C s i)
    (hnd : willing.Nodup) (hsub : ∀ p ∈ willing, p ∈ C.peers i)
    (hready : ∀ p ∈ willing, Untouched C s p ∧
      (C.start.nodes p).lastLogTerm ≤ (C.start.nodes i).lastLogTerm)
    (hmaj : 1 + willing.length > (C.peers i).length / 2) :
    s.AlongRun C.Enabled (elect C i willing) ∧
      ((s.run (elect C i willing)).nodes i).role = .leader ∧
      ((s.run (elect C i willing)).nodes i).currentTerm = 1 ∧
      ∀ p, p ≠ i → (p ∉ willing → (s.run (elect C i willing)).nodes p = s.nodes p) ∧
        (s.run (elect C i willing)).elections p = s.elections p := by
  have hnodup : (C.peers i).Nodup := (C.others i hi).nodup_iff.mpr (C.nodup.erase i)
  have hself : i ∉ willing := by
    intro hmem
    have := (C.others i hi).mem_iff.mp (hsub i hmem)
    rw [C.nodup.mem_erase_iff] at this
    exact this.1 rfl
  let s₁ := s.perform (.standForElection i)
  have hnode : s₁.nodes i = (C.start.nodes i).standForElection := by
    rw [← hfresh.node]
    exact Function.update_self _ _ _
  have hother : ∀ p, p ≠ i → s₁.nodes p = s.nodes p ∧ s₁.elections p = s.elections p :=
    fun p hp => ⟨Function.update_of_ne hp _ _, Function.update_of_ne hp _ _⟩
  have hballot : s₁.elections i = some ⟨C.peers i, 1⟩ := by
    have hpeers : (s.nodes i).peers = C.peers i := by rw [hfresh.node]; rfl
    rw [← hpeers]
    exact Function.update_self _ _ _
  obtain ⟨hrun, hdone, hc, ho, he⟩ := askAll_run willing hi hnodup hballot
    (by rw [hnode]; exact Int.one_pos) hself (by
      intro p hp hpw
      have hpi : p ≠ i := fun heq => hself (heq ▸ hpw)
      obtain ⟨hfp, hlp⟩ := hready p hpw
      refine ⟨⟨(hother p hpi).1.trans hfp.node, (hother p hpi).2.trans hfp.unlocked⟩, ?_⟩
      rw [hnode]
      exact hlp)
  let s₂ := s₁.run (askAll i willing (C.peers i))
  have hvotes : ((C.peers i).filter (· ∈ willing)).length = willing.length := by
    apply List.Perm.length_eq
    rw [List.perm_ext_iff_of_nodup (hnodup.filter _) hnd]
    intro p
    rw [List.mem_filter]
    simp only [decide_eq_true_eq]
    exact ⟨fun h => h.2, fun h => ⟨hsub p h, h⟩⟩
  rw [hvotes] at hdone
  have hleader : (s₂.nodes i).countVotes (1 + willing.length) = (s₂.nodes i).becomeLeader := by
    rw [countVotes, if_pos]
    rw [hc, hnode]
    exact hmaj
  have hrunEq : s.run (elect C i willing) = s₂.perform (.countVotes i) := by
    simp only [elect, ClusterState.run, List.foldl_cons, List.foldl_append]
    rfl
  have hfinal : (s₂.perform (.countVotes i)).nodes =
      Function.update s₂.nodes i (s₂.nodes i).becomeLeader ∧
      (s₂.perform (.countVotes i)).elections = Function.update s₂.elections i none := by
    have hdone' : s₂.elections i = some ⟨[], 1 + willing.length⟩ := hdone
    simp only [ClusterState.perform, hdone', hleader]
    split <;> exact ⟨rfl, rfl⟩
  refine ⟨⟨⟨hi, hfresh.unlocked⟩, ClusterState.alongRun_append.mpr ⟨hrun, ⟨hi, _, hdone, rfl⟩, trivial⟩⟩, ?_, ?_, ?_⟩
  · rw [hrunEq, hfinal.1, Function.update_self]
    rfl
  · rw [hrunEq, hfinal.1, Function.update_self, becomeLeader_currentTerm, hc, hnode]
    rfl
  · intro p hp
    rw [hrunEq, hfinal.1, hfinal.2, Function.update_of_ne hp, Function.update_of_ne hp]
    exact ⟨fun hpw => (ho p hpw).trans (hother p hp).1, (he p hp).trans (hother p hp).2⟩

/-- With an even number of nodes, the two nodes with the freshest logs can
each collect the votes of half the cluster, in the same term. -/
theorem not_electionSafe_of_even (heven : C.ids.length % 2 = 0) (hne : C.ids ≠ []) :
    ¬ ElectionSafe C := by
  intro hsafe
  have hpos := List.length_pos_iff.mpr hne
  obtain ⟨a, ha, hmaxa⟩ := Finset.exists_max_image C.ids.toFinset
    (fun p => (C.start.nodes p).lastLogTerm) (by simpa using hne)
  rw [List.mem_toFinset] at ha
  have hlena : (C.ids.erase a).length = C.ids.length - 1 := List.length_erase_of_mem ha
  obtain ⟨b, hb, hmaxb⟩ := Finset.exists_max_image (C.ids.erase a).toFinset
    (fun p => (C.start.nodes p).lastLogTerm)
    (by rw [List.toFinset_nonempty_iff, ← List.length_pos_iff]; omega)
  rw [List.mem_toFinset] at hb
  obtain ⟨hba, hb'⟩ := C.nodup.mem_erase_iff.mp hb
  let rest := (C.ids.erase a).erase b
  let half := C.ids.length / 2 - 1
  have hnda := C.nodup.erase a
  have hnd : rest.Nodup := hnda.erase b
  have hlen : rest.length = 2 * half := by
    have : rest.length = (C.ids.erase a).length - 1 := List.length_erase_of_mem hb
    omega
  have hrest : ∀ p ∈ rest, p ≠ b ∧ p ≠ a ∧ p ∈ C.ids := by
    intro p hp
    obtain ⟨hpb, hp'⟩ := hnda.mem_erase_iff.mp hp
    exact ⟨hpb, C.nodup.mem_erase_iff.mp hp'⟩
  have hpeers : ∀ {i p}, i ∈ C.ids → p ∈ C.ids → p ≠ i → p ∈ C.peers i := by
    intro i p hi hp hpi
    exact (C.others i hi).mem_iff.mpr (C.nodup.mem_erase_iff.mpr ⟨hpi, hp⟩)
  have htake : ∀ p ∈ rest.take half, p ∈ rest := fun p hp => List.mem_of_mem_take hp
  have hdrop : ∀ p ∈ rest.drop half, p ∈ rest := fun p hp => List.mem_of_mem_drop hp
  have hstart : ∀ p, Untouched C C.start p := fun p => ⟨rfl, rfl⟩
  obtain ⟨hrun, hrole, hterm, hframe⟩ := elect_run (rest.take half) ha (hstart a)
    (hnd.sublist (List.take_sublist _ _))
    (fun p hp => hpeers ha (hrest p (htake p hp)).2.2 (hrest p (htake p hp)).2.1)
    (fun p hp => ⟨hstart p, hmaxa p (by simpa using (hrest p (htake p hp)).2.2)⟩)
    (by rw [peers_length C ha, List.length_take]; omega)
  let s := C.start.run (elect C a (rest.take half))
  have huntouched : ∀ p, p ≠ a → p ∉ rest.take half → Untouched C s p :=
    fun p hpa hp => ⟨(hframe p hpa).1 hp, (hframe p hpa).2⟩
  have hdisj : ∀ p ∈ rest.drop half, p ∉ rest.take half := by
    intro p hp hp'
    rw [← List.take_append_drop half rest] at hnd
    exact (List.nodup_append.mp hnd).2.2 p hp' p hp rfl
  obtain ⟨hrun', hrole', hterm', hframe'⟩ := elect_run (rest.drop half) hb'
    (huntouched b hba fun hmem => (hrest b (htake b hmem)).1 rfl)
    (hnd.sublist (List.drop_sublist _ _))
    (fun p hp => hpeers hb' (hrest p (hdrop p hp)).2.2 (hrest p (hdrop p hp)).1)
    (fun p hp => ⟨huntouched p (hrest p (hdrop p hp)).2.1 (hdisj p hp),
      hmaxb p (by simpa using (hnda.mem_erase_iff.mp (hdrop p hp)).2)⟩)
    (by rw [peers_length C hb', List.length_drop]; omega)
  have hall : C.start.run (elect C a (rest.take half) ++ elect C b (rest.drop half)) =
      s.run (elect C b (rest.drop half)) := List.foldl_append
  refine hba.symm (hsafe _ _ (ClusterState.alongRun_append.mpr ⟨hrun, hrun'⟩) a ha b hb' hrole ?_ ?_)
  · rw [hall]
    exact hrole'
  · rw [hall, hterm', hterm]

end Even

/-- Election safety holds exactly in the clusters with an odd number of nodes. -/
theorem electionSafe_iff (C : Cluster) :
    ElectionSafe C ↔ C.ids.length % 2 = 1 ∨ C.ids = [] := by
  constructor
  · intro hsafe
    by_contra hnot
    obtain ⟨hodd, hne⟩ := not_or.mp hnot
    exact not_electionSafe_of_even (by omega) hne hsafe
  · rintro (hodd | hnil)
    · exact electionSafe_of_odd hodd
    · intro first later hrun i hi
      rw [hnil] at hi
      cases hi

def pair : Cluster where
  ids := ["node-1", "node-2"]
  peers := fun i => ["node-1", "node-2"].erase i
  stateDirs := fun _ => {}
  nodup := by decide
  others := by decide

/-- Two nodes that do not hear from each other both become leader of term 1:
a single vote is more than half of one peer. -/
theorem not_electionSafe_pair : ¬ ∀ C : Cluster, ElectionSafe C := by
  intro h
  have hsame := h pair (elect pair "node-1" []) (elect pair "node-2" []) (by decide)
    "node-1" (by decide) "node-2" (by decide) (by decide) (by decide) (by decide)
  exact absurd hsame (by decide)

end Prodinamik.Raft.ElectionSafety
