import Mathlib.Logic.Function.Basic
import Prodinamik.Lib.Run

namespace Prodinamik.Cluster

open Lib.Run

variable {N : Type} [DecidableEq N]

inductive Backend
  | etcd
  | consul
  deriving DecidableEq, Repr

/-- No lease is ever taken. -/
structure ExternalLeaderElector where
  amLeader : Bool := false
  running : Bool := false
  deriving DecidableEq, Repr

inductive Caller
  | campaign
  | refresh
  | resign
  deriving DecidableEq, Repr

/-- A request to the backend, and what the backend has answered to it. -/
structure Request (N : Type) where
  node : N
  caller : Caller
  answer : Option Bool := none
  deriving DecidableEq, Repr

/-- The electors on one key and the key's owner. -/
structure Election (N : Type) where
  electors : N → ExternalLeaderElector := fun _ => {}
  key : Option N := none
  requests : List (Request N) := []

/-- A call begins, a request is served or its answer is read. -/
inductive Action (N : Type)
  | campaign (n : N)
  | refresh (n : N)
  | resign (n : N)
  | serve (r : Request N)
  | receive (r : Request N)
  deriving DecidableEq, Repr

namespace Election

def setElector (s : Election N) (n : N) (e : ExternalLeaderElector) : Election N :=
  { s with electors := Function.update s.electors n e }

def send (s : Election N) (n : N) (caller : Caller) : Election N :=
  { s with requests := ⟨n, caller, none⟩ :: s.requests }

/-- A put of etcd overwrites the key; a PUT with cas=0 succeeds on an absent key. -/
def put (backend : Backend) (s : Election N) (r : Request N) : Election N :=
  let rest := s.requests.erase r
  match backend with
  | .etcd => { s with key := some r.node, requests := { r with answer := some true } :: rest }
  | .consul =>
      { s with
        key := some (s.key.getD r.node)
        requests := { r with answer := some s.key.isNone } :: rest }

/-- The DELETE of a resignation removes the key, whoever owns it. -/
def serve (backend : Backend) (s : Election N) (r : Request N) : Election N :=
  if r.caller = .resign then { s with key := none, requests := s.requests.erase r }
  else s.put backend r

/-- Where a campaign ends with a leader its refresh loop is started. -/
def receive (s : Election N) (r : Request N) : Election N :=
  let e := s.electors r.node
  let amLeader := e.amLeader || r.answer = some true
  setElector { s with requests := s.requests.erase r } r.node
    ⟨amLeader, e.running || (r.caller = .campaign && amLeader)⟩

/-- An elector of etcd has no lease: it has nothing to refresh and nothing to delete. -/
def perform (backend : Backend) (s : Election N) : Action N → Election N
  | .campaign n => if (s.electors n).amLeader then s else s.send n .campaign
  | .refresh n =>
      if backend = .consul ∧ (s.electors n).running ∧ (s.electors n).amLeader then
        s.send n .refresh
      else s
  | .resign n =>
      let s := s.setElector n ⟨false, false⟩
      if backend = .consul then s.send n .resign else s
  | .serve r => if r ∈ s.requests ∧ r.answer = none then s.serve backend r else s
  | .receive r => if r ∈ s.requests ∧ r.answer ≠ none then s.receive r else s

def AtMostOneLeader (s : Election N) : Prop :=
  ∀ i j, (s.electors i).amLeader → (s.electors j).amLeader → i = j

/-- An elector of etcd campaigns while no other one leads or campaigns; an
elector of consul resigns while it leads. -/
def Allowed (backend : Backend) (s : Election N) : Action N → Prop
  | .campaign n => backend = .etcd →
      (∀ i, (s.electors i).amLeader → i = n) ∧ ∀ r ∈ s.requests, r.node = n
  | .resign n => backend = .consul → (s.electors n).amLeader
  | _ => True

/-! The key of consul is a token: one elector leads, or has been granted the
key and not yet heard of it, or is about to delete it. -/

def Token (r : Request N) : Bool := r.caller = .resign || r.answer = some true

structure ConsulInv (s : Election N) : Prop where
  absent : s.key = none → s.requests.countP Token = 0 ∧ ∀ i, (s.electors i).amLeader = false
  one : s.requests.countP Token = 0 ∧ s.AtMostOneLeader ∨
    s.requests.countP Token = 1 ∧ ∀ i, (s.electors i).amLeader = false

omit [DecidableEq N] in
theorem ConsulInv.atMostOne {s : Election N} (h : s.ConsulInv) : s.AtMostOneLeader := by
  obtain ⟨-, hone⟩ | ⟨-, hnone⟩ := h.one
  · exact hone
  · intro i j hi
    rw [hnone i] at hi
    cases hi

theorem amLeader_setElector (s : Election N) (n i : N) (e : ExternalLeaderElector) :
    ((s.setElector n e).electors i).amLeader =
      if i = n then e.amLeader else (s.electors i).amLeader := by
  rw [setElector]
  simp only [Function.update_apply]
  split <;> rfl

theorem amLeader_receive (s : Election N) (r : Request N) (i : N) :
    ((s.receive r).electors i).amLeader =
      if i = r.node then (s.electors r.node).amLeader || r.answer = some true
      else (s.electors i).amLeader :=
  amLeader_setElector _ _ _ _

omit [DecidableEq N] in
/-- A request that is not a token comes and goes unnoticed. -/
theorem ConsulInv.of_same {s s' : Election N} (h : s.ConsulInv)
    (hkey : s'.key = none → s.key = none)
    (hcount : s'.requests.countP Token = s.requests.countP Token)
    (hleaders : ∀ i, (s'.electors i).amLeader = (s.electors i).amLeader) : s'.ConsulInv := by
  refine ⟨fun hnone => ?_, ?_⟩
  · rw [hcount]
    exact ⟨(h.absent (hkey hnone)).1, fun i => (hleaders i).trans ((h.absent (hkey hnone)).2 i)⟩
  · rw [hcount]
    refine h.one.imp (fun hone => ⟨hone.1, fun i j hi hj => ?_⟩) fun hone =>
      ⟨hone.1, fun i => (hleaders i).trans (hone.2 i)⟩
    rw [hleaders] at hi hj
    exact hone.2 i j hi hj

theorem countP_erase_token {s : Election N} {r : Request N} (hr : r ∈ s.requests) :
    (s.requests.erase r).countP Token + (if Token r then 1 else 0) =
      s.requests.countP Token := by
  rw [(List.perm_cons_erase hr).countP_eq, List.countP_cons]

/-- The token of a request that is dealt with: the others have none. -/
theorem ConsulInv.token {s : Election N} (h : s.ConsulInv) {r : Request N} (hr : r ∈ s.requests)
    (htoken : Token r = true) : (s.requests.erase r).countP Token = 0 ∧
      (∀ i, (s.electors i).amLeader = false) ∧ s.key ≠ none := by
  have hcount := countP_erase_token hr
  rw [htoken, if_pos rfl] at hcount
  refine ⟨?_, ?_, fun hkey => ?_⟩
  · obtain hone | hone := h.one
    · omega
    · omega
  · obtain hone | hone := h.one
    · omega
    · exact hone.2
  · have := (h.absent hkey).1
    omega

theorem consulInv_put {s : Election N} (h : s.ConsulInv) {r : Request N} (hr : r ∈ s.requests)
    (hcaller : r.caller ≠ .resign) (hanswer : r.answer = none) : (s.put .consul r).ConsulInv := by
  have htoken : Token r = false := by simp [Token, hcaller, hanswer]
  have hcount := countP_erase_token hr
  rw [htoken, if_neg Bool.false_ne_true, Nat.add_zero] at hcount
  cases hkey : s.key with
  | none =>
      obtain ⟨hzero, hnone⟩ := h.absent hkey
      refine ⟨fun hput => (nomatch hput), .inr ⟨?_, hnone⟩⟩
      rw [put, hkey, List.countP_cons, hcount, hzero]
      simp [Token]
  | some owner =>
      refine h.of_same (fun hput => (nomatch hput)) ?_ fun i => rfl
      rw [put, hkey, List.countP_cons, hcount]
      simp [Token, hcaller]

theorem consulInv_serve {s : Election N} (h : s.ConsulInv) {r : Request N} (hr : r ∈ s.requests)
    (hanswer : r.answer = none) : (s.serve .consul r).ConsulInv := by
  rw [serve]
  split
  case isFalse hcaller => exact consulInv_put h hr hcaller hanswer
  case isTrue hcaller =>
    obtain ⟨hrest, hnone, -⟩ := h.token hr (by simp [Token, hcaller])
    refine ⟨fun _ => ⟨hrest, hnone⟩, .inl ⟨hrest, fun i j hi => ?_⟩⟩
    exact absurd hi (by simp [hnone i])

theorem consulInv_receive {s : Election N} (h : s.ConsulInv) {r : Request N}
    (hr : r ∈ s.requests) : (s.receive r).ConsulInv := by
  cases htoken : Token r with
  | true =>
      obtain ⟨hrest, hnone, hkey⟩ := h.token hr htoken
      refine ⟨fun hk => absurd hk hkey, .inl ⟨hrest, ?_⟩⟩
      have honly : ∀ i, ((s.receive r).electors i).amLeader → i = r.node := by
        intro i hi
        by_contra hne
        rw [amLeader_receive, if_neg hne, hnone i] at hi
        cases hi
      exact fun i j hi hj => (honly i hi).trans (honly j hj).symm
  | false =>
      have hcount := countP_erase_token hr
      rw [htoken, if_neg Bool.false_ne_true, Nat.add_zero] at hcount
      refine h.of_same id hcount fun i => ?_
      have hanswer : r.answer ≠ some true := fun hanswer => by simp [Token, hanswer] at htoken
      rw [amLeader_receive, decide_eq_false hanswer, Bool.or_false]
      split
      case isTrue hi => rw [hi]
      case isFalse => rfl

theorem consulInv_perform {s : Election N} (h : s.ConsulInv) {a : Action N}
    (ha : s.Allowed .consul a) : (s.perform .consul a).ConsulInv := by
  have hsend : ∀ n caller, caller ≠ .resign → (s.send n caller).ConsulInv := by
    intro n caller hcaller
    refine h.of_same id ?_ fun i => rfl
    rw [send, List.countP_cons]
    simp [Token, hcaller]
  cases a with
  | campaign n =>
      rw [perform]
      split
      case isTrue => exact h
      case isFalse => exact hsend n _ (by decide)
  | refresh n =>
      rw [perform]
      split
      case isTrue => exact hsend n _ (by decide)
      case isFalse => exact h
  | resign n =>
      have hleads : (s.electors n).amLeader = true := ha rfl
      obtain ⟨hzero, hone⟩ | ⟨-, hnone⟩ := h.one
      · have hkey : s.key ≠ none := fun hkey => by simp [(h.absent hkey).2 n] at hleads
        refine ⟨fun hk => absurd hk hkey, .inr ⟨?_, fun i => ?_⟩⟩
        · exact List.countP_cons_of_pos (l := s.requests) rfl |>.trans (by rw [hzero])
        · rw [show ((s.perform .consul (.resign n)).electors i).amLeader = _ from
            amLeader_setElector s n i ⟨false, false⟩]
          split
          case isTrue => rfl
          case isFalse hne => exact Bool.eq_false_iff.mpr fun hi => hne (hone i n hi hleads)
      · rw [hnone n] at hleads
        cases hleads
  | serve r =>
      rw [perform]
      split
      case isTrue hr => exact consulInv_serve h hr.1 hr.2
      case isFalse => exact h
  | receive r =>
      rw [perform]
      split
      case isTrue hr => exact consulInv_receive h hr.1
      case isFalse => exact h

/-- An elector of etcd that leads or has asked to. -/
def Claims (s : Election N) (i : N) : Prop :=
  (s.electors i).amLeader ∨ ∃ r ∈ s.requests, r.node = i

def EtcdInv (s : Election N) : Prop := ∀ i j, s.Claims i → s.Claims j → i = j

omit [DecidableEq N] in
theorem EtcdInv.mono {s s' : Election N} (h : s.EtcdInv) (hclaims : ∀ i, s'.Claims i → s.Claims i) :
    s'.EtcdInv := fun i j hi hj => h i j (hclaims i hi) (hclaims j hj)

theorem etcdInv_perform {s : Election N} (h : s.EtcdInv) {a : Action N}
    (ha : s.Allowed .etcd a) : (s.perform .etcd a).EtcdInv := by
  cases a with
  | campaign n =>
      rw [perform]
      split
      case isTrue => exact h
      case isFalse =>
        obtain ⟨hleads, hasks⟩ : (∀ i, (s.electors i).amLeader → i = n) ∧
          ∀ r ∈ s.requests, r.node = n := ha rfl
        have honly : ∀ i, (s.send n .campaign).Claims i → i = n := by
          rintro i (hi | ⟨r, hr, rfl⟩)
          · exact hleads i hi
          · obtain rfl | hr := List.mem_cons.mp hr
            · rfl
            · exact hasks r hr
        exact fun i j hi hj => (honly i hi).trans (honly j hj).symm
  | refresh n => exact h
  | resign n =>
      refine h.mono ?_
      rintro i (hi | hi)
      · rw [show ((s.perform .etcd (.resign n)).electors i).amLeader = _ from
          amLeader_setElector s n i ⟨false, false⟩] at hi
        split at hi
        · cases hi
        · exact .inl hi
      · exact .inr hi
  | serve r =>
      rw [perform]
      split
      case isFalse => exact h
      case isTrue hr =>
        refine h.mono ?_
        rintro i (hi | ⟨r', hr', rfl⟩)
        · rw [serve] at hi
          split at hi <;> exact .inl hi
        · rw [serve] at hr'
          split at hr'
          · exact .inr ⟨r', List.mem_of_mem_erase hr', rfl⟩
          · obtain rfl | hr' := List.mem_cons.mp hr'
            · exact .inr ⟨r, hr.1, rfl⟩
            · exact .inr ⟨r', List.mem_of_mem_erase hr', rfl⟩
  | receive r =>
      rw [perform]
      split
      case isFalse => exact h
      case isTrue hr =>
        refine h.mono ?_
        rintro i (hi | ⟨r', hr', rfl⟩)
        · rw [amLeader_receive] at hi
          split at hi
          case isTrue hi' => exact .inr ⟨r, hr.1, hi'.symm⟩
          case isFalse => exact .inl hi
        · exact .inr ⟨r', List.mem_of_mem_erase hr', rfl⟩

/-- No two electors lead at a time in a run whose every step is allowed. -/
theorem one_leader {backend : Backend} {actions : List (Action N)}
    (h : Steps (perform backend) (Allowed backend) {} actions) :
    Always (perform backend) AtMostOneLeader {} actions := by
  cases backend with
  | etcd =>
      have hinv : Along (perform .etcd) EtcdInv _ {} actions :=
        along_of_invariant (fun s a hs ha => etcdInv_perform hs ha) (by
          rintro i j (hi | ⟨r, hr, -⟩)
          · cases hi
          · exact absurd hr List.not_mem_nil) h
      exact hinv.imp (fun s hs i j hi hj => hs i j (.inl hi) (.inl hj)) fun _ _ _ => trivial
  | consul =>
      have hinv : Along (perform .consul) ConsulInv _ {} actions :=
        along_of_invariant (fun s a hs ha => consulInv_perform hs ha)
          ⟨fun _ => ⟨rfl, fun _ => rfl⟩, .inl ⟨rfl, fun i j hi => absurd hi Bool.false_ne_true⟩⟩ h
      exact hinv.imp (fun s hs => hs.atMostOne) fun _ _ _ => trivial

/-- A call of campaign that nothing comes between. -/
def campaigns (n : N) (granted : Bool) : List (Action N) :=
  [.campaign n, .serve ⟨n, .campaign, none⟩, .receive ⟨n, .campaign, some granted⟩]

def resigns (n : N) : List (Action N) := [.resign n, .serve ⟨n, .resign, none⟩]

theorem one_leader_after_resigning : Always (perform .consul) AtMostOneLeader {}
    (campaigns "node-1" true ++ campaigns "node-2" false ++ resigns "node-1" ++
      campaigns "node-2" true) :=
  one_leader ⟨trivial, nofun, trivial, trivial, trivial, trivial, trivial, nofun, trivial, trivial,
    trivial, trivial, trivial, fun _ => by decide +kernel, trivial, trivial, trivial, nofun, trivial,
    trivial, trivial, trivial, trivial⟩

/-- With etcd the second campaign wins as well; with consul a node that does
not lead takes the key away from the one that does. -/
theorem not_one_leader :
    (¬ ∀ actions : List (Action String), Always (perform .etcd) AtMostOneLeader {} actions) ∧
      ¬ ∀ actions : List (Action String), Always (perform .consul) AtMostOneLeader {} actions := by
  have hlast : ∀ {backend} {actions : List (Action String)} {i j : String},
      Always (perform backend) AtMostOneLeader {} actions →
      ((actions.foldl (perform backend) {}).electors i).amLeader →
      ((actions.foldl (perform backend) {}).electors j).amLeader → i = j :=
    fun h hi hj => h.last _ _ hi hj
  constructor
  · intro h
    have hsame := hlast (h (campaigns "node-1" true ++ campaigns "node-2" true))
      (i := "node-1") (j := "node-2") (by decide +kernel) (by decide +kernel)
    exact absurd hsame (by decide)
  · intro h
    have hsame := hlast
      (h (campaigns "node-1" true ++ resigns "node-2" ++ campaigns "node-3" true))
      (i := "node-1") (j := "node-3") (by decide +kernel) (by decide +kernel)
    exact absurd hsame (by decide)

end Election

end Prodinamik.Cluster
