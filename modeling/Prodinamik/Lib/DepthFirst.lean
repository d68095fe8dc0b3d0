import Mathlib.Data.Finset.Card
import Mathlib.Data.List.Chain
import Mathlib.Logic.Relation

namespace Prodinamik.Lib.DepthFirst

open Relation

variable {α : Type} {next : α → Option (List α)}

/-- What a search meets where it does not go on: a node that is on the path,
or one that is not there. -/
inductive Event (α : Type)
  | loop (path : List α) (a : α)
  | absent (a : α)

/-- A depth-first search that goes through a list of nodes at the end of a path.
Done are the nodes that have been left, in the order in which that happened. -/
inductive Traverse (next : α → Option (List α)) :
    List α → List α → List α → List α → List (Event α) → Prop
  | nil {path done : List α} : Traverse next path [] done done []
  | known {path done done' rest : List α} {a : α} {events : List (Event α)} (hdone : a ∈ done)
      (hrest : Traverse next path rest done done' events) :
      Traverse next path (a :: rest) done done' events
  | loop {path done done' rest : List α} {a : α} {events : List (Event α)} (hdone : a ∉ done)
      (hpath : a ∈ path) (hrest : Traverse next path rest done done' events) :
      Traverse next path (a :: rest) done done' (.loop path a :: events)
  | absent {path done done' rest : List α} {a : α} {events : List (Event α)} (hdone : a ∉ done)
      (hpath : a ∉ path) (hnext : next a = none)
      (hrest : Traverse next path rest done done' events) :
      Traverse next path (a :: rest) done done' (.absent a :: events)
  | enter {path done mid done' successors rest : List α} {a : α} {below events : List (Event α)}
      (hdone : a ∉ done) (hpath : a ∉ path) (hnext : next a = some successors)
      (hbelow : Traverse next (path ++ [a]) successors done mid below)
      (hrest : Traverse next path rest (mid ++ [a]) done' events) :
      Traverse next path (a :: rest) done done' (below ++ events)

def Edge (next : α → Option (List α)) (a b : α) : Prop :=
  ∃ successors, next a = some successors ∧ b ∈ successors

abbrev Reaches (next : α → Option (List α)) : α → α → Prop := ReflTransGen (Edge next)

/-- A node on a cycle, or one that is not there, can be reached. -/
def Fails (next : α → Option (List α)) (a : α) : Prop :=
  ∃ b, Reaches next a b ∧ (next b = none ∨ TransGen (Edge next) b b)

/-- The node comes after all its successors. -/
def Settled (next : α → Option (List α)) (order : List α) (a : α) : Prop :=
  ∃ before after, order = before ++ a :: after ∧ ∀ b, Edge next a b → b ∈ before

/-- The path leads to each of the nodes. -/
def Leads (next : α → Option (List α)) (path pending : List α) : Prop :=
  ∀ a ∈ pending, (path ++ [a]).IsChain (Edge next)

theorem Fails.step {a b : α} (hedge : Edge next a b) (h : Fails next b) : Fails next a := by
  obtain ⟨c, hreach, hc⟩ := h
  exact ⟨c, .head hedge hreach, hc⟩

theorem Settled.append {order : List α} {a : α} (h : Settled next order a) (more : List α) :
    Settled next (order ++ more) a := by
  obtain ⟨before, after, rfl, hbefore⟩ := h
  exact ⟨before, after ++ more, by simp, hbefore⟩

theorem Settled.mem {order : List α} {a b : α} (h : Settled next order a)
    (hedge : Edge next a b) : b ∈ order := by
  obtain ⟨before, after, rfl, hbefore⟩ := h
  exact List.mem_append_left _ (hbefore b hedge)

theorem leads_nil (pending : List α) : Leads next [] pending := fun a _ => .singleton a

theorem Leads.rest {path rest : List α} {a : α} (h : Leads next path (a :: rest)) :
    Leads next path rest := fun b hb => h b (List.mem_cons_of_mem _ hb)

theorem Leads.below {path rest successors : List α} {a : α} (h : Leads next path (a :: rest))
    (hnext : next a = some successors) : Leads next (path ++ [a]) successors := by
  intro b hb
  refine List.isChain_append.mpr ⟨h a List.mem_cons_self, .singleton b, fun c hc d hd => ?_⟩
  rw [List.getLast?_append_of_ne_nil _ (List.cons_ne_nil a [])] at hc
  cases hc
  cases hd
  exact ⟨successors, hnext, hb⟩

/-- A node of the path that the path leads to is on a cycle. -/
theorem Leads.cycle {path pending : List α} {a : α} (h : Leads next path pending)
    (ha : a ∈ pending) (hpath : a ∈ path) : TransGen (Edge next) a a := by
  obtain ⟨before, after, rfl⟩ := List.append_of_mem hpath
  have hchain := h a ha
  rw [List.append_assoc, List.cons_append] at hchain
  have hcycle := (List.isChain_append.mp hchain).2.1
  have htrans := (hcycle.imp fun _ _ => TransGen.single).pairwise
  exact (List.pairwise_cons.mp htrans).1 a (List.mem_append_right _ (List.mem_singleton_self a))

theorem Traverse.extends {path pending done done' : List α} {events : List (Event α)}
    (h : Traverse next path pending done done' events) : done <+: done' := by
  induction h with
  | nil => exact List.prefix_rfl
  | known _ _ ih => exact ih
  | loop _ _ _ ih => exact ih
  | absent _ _ _ _ ih => exact ih
  | enter _ _ _ _ _ ihbelow ih => exact (ihbelow.trans (List.prefix_append ..)).trans ih

/-- A list of nodes is gone through one after the other. -/
theorem Traverse.cons_inv {path rest done done' : List α} {a : α} {events : List (Event α)}
    (h : Traverse next path (a :: rest) done done' events) :
    ∃ mid first later, Traverse next path [a] done mid first ∧
      Traverse next path rest mid done' later ∧ events = first ++ later := by
  cases h with
  | known hdone hrest => exact ⟨_, _, _, .known hdone .nil, hrest, rfl⟩
  | loop hdone hpath hrest => exact ⟨_, _, _, .loop hdone hpath .nil, hrest, rfl⟩
  | absent hdone hpath hnext hrest => exact ⟨_, _, _, .absent hdone hpath hnext .nil, hrest, rfl⟩
  | enter hdone hpath hnext hbelow hrest =>
      exact ⟨_, _, _, .enter hdone hpath hnext hbelow .nil, hrest, by rw [List.append_nil]⟩

theorem notMem_entered {path done : List α} {a : α} (hpath : ∀ b ∈ path, b ∉ done)
    (hdone : a ∉ done) : ∀ b ∈ path ++ [a], b ∉ done := by
  intro b hb
  obtain hb | hb := List.mem_append.mp hb
  · exact hpath b hb
  · exact List.mem_singleton.mp hb ▸ hdone

theorem notMem_left {path mid : List α} {a : α} (hmid : ∀ b ∈ path ++ [a], b ∉ mid)
    (hout : a ∉ path) : ∀ b ∈ path, b ∉ mid ++ [a] := by
  intro b hb hmem
  obtain hmem | hmem := List.mem_append.mp hmem
  · exact hmid b (List.mem_append_left _ hb) hmem
  · exact hout (List.mem_singleton.mp hmem ▸ hb)

/-- The nodes of the path are not left while it leads further. -/
theorem Traverse.path_notMem {path pending done done' : List α} {events : List (Event α)}
    (h : Traverse next path pending done done' events) (hpath : ∀ a ∈ path, a ∉ done) :
    ∀ a ∈ path, a ∉ done' := by
  induction h with
  | nil => exact hpath
  | known _ _ ih => exact ih hpath
  | loop _ _ _ ih => exact ih hpath
  | absent _ _ _ _ ih => exact ih hpath
  | enter hdone hout _ _ _ ihbelow ih =>
      exact ih (notMem_left (ihbelow (notMem_entered hpath hdone)) hout)

theorem Traverse.nodup {path pending done done' : List α} {events : List (Event α)}
    (h : Traverse next path pending done done' events) (hpath : ∀ a ∈ path, a ∉ done)
    (hnodup : done.Nodup) : done'.Nodup := by
  induction h with
  | nil => exact hnodup
  | known _ _ ih => exact ih hpath hnodup
  | loop _ _ _ ih => exact ih hpath hnodup
  | absent _ _ _ _ ih => exact ih hpath hnodup
  | @enter path done mid _ _ _ a _ _ hdone hout _ hbelow _ ihbelow ih =>
      have hentered := notMem_entered hpath hdone
      have hmid := hbelow.path_notMem hentered
      have hnew : a ∉ mid := hmid a (List.mem_append_right _ (List.mem_singleton_self a))
      exact ih (notMem_left hmid hout) ((ihbelow hentered hnodup).append (List.nodup_singleton a)
        (List.disjoint_singleton.mpr hnew))

/-- What is left has been reached from the nodes that the search went through. -/
theorem Traverse.reached {path pending done done' : List α} {events : List (Event α)}
    (h : Traverse next path pending done done' events) :
    ∀ a ∈ done', a ∈ done ∨ next a ≠ none ∧ ∃ b ∈ pending, Reaches next b a := by
  induction h with
  | nil => exact fun a ha => .inl ha
  | known _ _ ih =>
      intro a ha
      refine (ih a ha).imp_right (And.imp_right ?_)
      exact fun ⟨b, hb, hreach⟩ => ⟨b, List.mem_cons_of_mem _ hb, hreach⟩
  | loop _ _ _ ih =>
      intro a ha
      refine (ih a ha).imp_right (And.imp_right ?_)
      exact fun ⟨b, hb, hreach⟩ => ⟨b, List.mem_cons_of_mem _ hb, hreach⟩
  | absent _ _ _ _ ih =>
      intro a ha
      refine (ih a ha).imp_right (And.imp_right ?_)
      exact fun ⟨b, hb, hreach⟩ => ⟨b, List.mem_cons_of_mem _ hb, hreach⟩
  | @enter _ _ _ _ _ _ c _ _ _ _ hnext _ _ ihbelow ih =>
      intro a ha
      obtain hmid | ⟨hsome, b, hb, hreach⟩ := ih a ha
      · obtain hmid | hc := List.mem_append.mp hmid
        · refine (ihbelow a hmid).imp_right (And.imp_right ?_)
          exact fun ⟨b, hb, hreach⟩ => ⟨c, List.mem_cons_self, .head ⟨_, hnext, hb⟩ hreach⟩
        · obtain rfl := List.mem_singleton.mp hc
          exact .inr ⟨by rw [hnext]; exact Option.some_ne_none _, a, List.mem_cons_self, .refl⟩
      · exact .inr ⟨hsome, b, List.mem_cons_of_mem _ hb, hreach⟩

/-- A node is left unless it is on the path or not there. -/
theorem Traverse.covers {path pending done done' : List α} {events : List (Event α)}
    (h : Traverse next path pending done done' events) :
    ∀ a ∈ pending, a ∈ done' ∨ (a ∈ path ∨ next a = none) ∧ events ≠ [] := by
  induction h with
  | nil => exact fun a ha => absurd ha List.not_mem_nil
  | known hdone hrest ih =>
      intro b hb
      obtain rfl | hb := List.mem_cons.mp hb
      · exact .inl (hrest.extends.subset hdone)
      · exact ih b hb
  | loop _ hpath _ ih =>
      intro b hb
      obtain rfl | hb := List.mem_cons.mp hb
      · exact .inr ⟨.inl hpath, List.cons_ne_nil _ _⟩
      · exact (ih b hb).imp_right fun hmissed => ⟨hmissed.1, List.cons_ne_nil _ _⟩
  | absent _ _ hnext _ ih =>
      intro b hb
      obtain rfl | hb := List.mem_cons.mp hb
      · exact .inr ⟨.inr hnext, List.cons_ne_nil _ _⟩
      · exact (ih b hb).imp_right fun hmissed => ⟨hmissed.1, List.cons_ne_nil _ _⟩
  | enter _ _ _ _ hrest _ ih =>
      intro b hb
      obtain rfl | hb := List.mem_cons.mp hb
      · exact .inl (hrest.extends.subset (List.mem_append_right _ (List.mem_singleton_self _)))
      · exact (ih b hb).imp_right fun hmissed =>
          ⟨hmissed.1, List.append_ne_nil_of_right_ne_nil _ hmissed.2⟩

/-- Something is met only where a node of a cycle, or one that is not there, is reached. -/
theorem Traverse.fails {path pending done done' : List α} {events : List (Event α)}
    (h : Traverse next path pending done done' events) (hleads : Leads next path pending)
    (hevents : events ≠ []) : ∃ a ∈ pending, Fails next a := by
  induction h with
  | nil => exact absurd rfl hevents
  | known _ _ ih =>
      obtain ⟨b, hb, hfails⟩ := ih hleads.rest hevents
      exact ⟨b, List.mem_cons_of_mem _ hb, hfails⟩
  | @loop _ _ _ _ a _ _ hpath _ _ =>
      exact ⟨a, List.mem_cons_self, a, .refl, .inr (hleads.cycle List.mem_cons_self hpath)⟩
  | @absent _ _ _ _ a _ _ _ hnext _ _ =>
      exact ⟨a, List.mem_cons_self, a, .refl, .inl hnext⟩
  | @enter _ _ _ _ _ _ a below _ _ _ hnext _ _ ihbelow ih =>
      by_cases hbelow : below = []
      · rw [hbelow] at hevents
        obtain ⟨b, hb, hfails⟩ := ih hleads.rest hevents
        exact ⟨b, List.mem_cons_of_mem _ hb, hfails⟩
      · obtain ⟨b, hb, hfails⟩ := ihbelow (hleads.below hnext) hbelow
        exact ⟨a, List.mem_cons_self, hfails.step ⟨_, hnext, hb⟩⟩

/-- A node is left after its successors unless one of them was met on the path
or was not there. -/
theorem Traverse.settled {path pending done done' : List α} {events : List (Event α)}
    (h : Traverse next path pending done done' events) (hleads : Leads next path pending) :
    ∀ a ∈ done', a ∈ done ∨ Settled next done' a ∨ Fails next a ∧ events ≠ [] := by
  induction h with
  | nil => exact fun a ha => .inl ha
  | known _ _ ih => exact ih hleads.rest
  | loop _ _ _ ih =>
      intro a ha
      exact (ih hleads.rest a ha).imp_right (Or.imp_right fun h => ⟨h.1, List.cons_ne_nil _ _⟩)
  | absent _ _ _ _ ih =>
      intro a ha
      exact (ih hleads.rest a ha).imp_right (Or.imp_right fun h => ⟨h.1, List.cons_ne_nil _ _⟩)
  | @enter path done mid done' successors rest a below events _ _ hnext hbelow hrest ihbelow ih =>
      have hleads' := hleads.below hnext
      obtain ⟨more, hmore⟩ := hrest.extends
      intro b hb
      obtain hmid | hsettled | hfails := ih hleads.rest b hb
      · obtain hmid | hba := List.mem_append.mp hmid
        · obtain hdone | hsettled | hfails := ihbelow hleads' b hmid
          · exact .inl hdone
          · refine .inr (.inl ?_)
            rw [← hmore, List.append_assoc]
            exact hsettled.append _
          · exact .inr (.inr ⟨hfails.1, List.append_ne_nil_of_left_ne_nil hfails.2 _⟩)
        · obtain rfl := List.mem_singleton.mp hba
          by_cases hall : ∀ c ∈ successors, c ∈ mid
          · refine .inr (.inl ⟨mid, more, ?_, ?_⟩)
            · rw [← hmore, List.append_assoc, List.singleton_append]
            · rintro c ⟨_, hsome, hc⟩
              rw [hnext] at hsome
              cases hsome
              exact hall c hc
          · rw [not_forall] at hall
            obtain ⟨c, hc⟩ := hall
            rw [Classical.not_imp] at hc
            obtain ⟨hc, hout⟩ := hc
            obtain hmem | ⟨hmissed, hevents⟩ := hbelow.covers c hc
            · exact absurd hmem hout
            · have hfails : Fails next c := by
                refine ⟨c, .refl, ?_⟩
                obtain hpath | hnone := hmissed
                · exact .inr (hleads'.cycle hc hpath)
                · exact .inl hnone
              exact .inr (.inr ⟨hfails.step ⟨_, hnext, hc⟩,
                List.append_ne_nil_of_left_ne_nil hevents _⟩)
      · exact .inr (.inl hsettled)
      · exact .inr (.inr ⟨hfails.1, List.append_ne_nil_of_right_ne_nil _ hfails.2⟩)

/-- Every loop that is met closes a simple path. -/
theorem Traverse.loops {path pending done done' : List α} {events : List (Event α)}
    (h : Traverse next path pending done done' events) (hleads : Leads next path pending)
    (hnodup : path.Nodup) : ∀ p a, .loop p a ∈ events →
      a ∈ p ∧ p.Nodup ∧ (p ++ [a]).IsChain (Edge next) := by
  induction h with
  | nil => exact fun p a ha => absurd ha List.not_mem_nil
  | known _ _ ih => exact ih hleads.rest hnodup
  | @loop path _ _ _ b _ _ hpath _ ih =>
      intro p a hmem
      obtain heq | hmem := List.mem_cons.mp hmem
      · cases heq
        exact ⟨hpath, hnodup, hleads _ List.mem_cons_self⟩
      · exact ih hleads.rest hnodup p a hmem
  | absent _ _ _ _ ih =>
      intro p a hmem
      obtain heq | hmem := List.mem_cons.mp hmem
      · cases heq
      · exact ih hleads.rest hnodup p a hmem
  | enter _ hout hnext _ _ ihbelow ih =>
      intro p a hmem
      obtain hmem | hmem := List.mem_append.mp hmem
      · exact ihbelow (hleads.below hnext) (hnodup.append (List.nodup_singleton _)
          (List.disjoint_singleton.mpr hout)) p a hmem
      · exact ih hleads.rest hnodup p a hmem

theorem Traverse.settled_of_not_fails {roots order : List α} {events : List (Event α)}
    (h : Traverse next [] roots [] order events) {a : α} (ha : a ∈ order)
    (hfails : ¬ Fails next a) : Settled next order a := by
  obtain hnil | hsettled | h := h.settled (leads_nil roots) a ha
  · exact absurd hnil List.not_mem_nil
  · exact hsettled
  · exact absurd h.1 hfails

theorem Traverse.absents {path pending done done' : List α} {events : List (Event α)}
    (h : Traverse next path pending done done' events) : ∀ a, .absent a ∈ events → next a = none := by
  induction h with
  | nil => exact fun a ha => absurd ha List.not_mem_nil
  | known _ _ ih => exact ih
  | loop _ _ _ ih =>
      intro a ha
      obtain heq | ha := List.mem_cons.mp ha
      · cases heq
      · exact ih a ha
  | absent _ _ hnext _ ih =>
      intro a ha
      obtain heq | ha := List.mem_cons.mp ha
      · cases heq
        exact hnext
      · exact ih a ha
  | enter _ _ _ _ _ ihbelow ih =>
      intro a ha
      obtain ha | ha := List.mem_append.mp ha
      · exact ihbelow a ha
      · exact ih a ha

section Order

variable [DecidableEq α]

theorem Settled.lt {order : List α} {a b : α} (hnodup : order.Nodup) (h : Settled next order a)
    (hedge : Edge next a b) : order.idxOf b < order.idxOf a := by
  obtain ⟨before, after, rfl, hbefore⟩ := h
  have hb := hbefore b hedge
  have ha : a ∉ before := by
    intro ha
    exact (List.nodup_append.mp hnodup).2.2 a ha a List.mem_cons_self rfl
  rw [List.idxOf_append_of_mem hb, List.idxOf_append_of_notMem ha, List.idxOf_cons_self]
  exact List.idxOf_lt_length_of_mem hb

/-- Where every node comes after its successors there is no cycle and nothing is missing. -/
theorem not_fails_of_settled {order : List α} (hnodup : order.Nodup)
    (hsettled : ∀ a ∈ order, Settled next order a) (hsome : ∀ a ∈ order, next a ≠ none) {a : α}
    (ha : a ∈ order) : ¬ Fails next a := by
  have hreach : ∀ {b}, Reaches next a b → b ∈ order := by
    intro b hb
    induction hb with
    | refl => exact ha
    | tail _ hedge ih => exact (hsettled _ ih).mem hedge
  have hlt : ∀ {b c}, b ∈ order → TransGen (Edge next) b c →
      c ∈ order ∧ order.idxOf c < order.idxOf b := by
    intro b c hb hc
    induction hc with
    | single hedge => exact ⟨(hsettled b hb).mem hedge, (hsettled b hb).lt hnodup hedge⟩
    | tail _ hedge ih =>
        have hsettled' := hsettled _ ih.1
        exact ⟨hsettled'.mem hedge, (hsettled'.lt hnodup hedge).trans ih.2⟩
  rintro ⟨b, hb, hnone | hcycle⟩
  · exact hsome b (hreach hb) hnone
  · exact absurd (hlt (hreach hb) hcycle).2 (lt_irrefl _)

variable {roots order : List α} {events : List (Event α)}

/-- A search from the roots meets nothing exactly if none of them fails. -/
theorem Traverse.events_eq_nil_iff (h : Traverse next [] roots [] order events) :
    events = [] ↔ ∀ a ∈ roots, ¬ Fails next a := by
  constructor
  · intro hnil a ha
    have hmem : ∀ a ∈ roots, a ∈ order := by
      intro a ha
      obtain hmem | ⟨-, hevents⟩ := h.covers a ha
      · exact hmem
      · exact absurd hnil hevents
    have hsettled : ∀ a ∈ order, Settled next order a := by
      intro a ha
      obtain hdone | hsettled | ⟨-, hevents⟩ := h.settled (leads_nil roots) a ha
      · exact absurd hdone List.not_mem_nil
      · exact hsettled
      · exact absurd hnil hevents
    have hsome : ∀ a ∈ order, next a ≠ none := by
      intro a ha
      obtain hdone | ⟨hsome, -⟩ := h.reached a ha
      · exact absurd hdone List.not_mem_nil
      · exact hsome
    have hnodup := h.nodup (fun a ha => absurd ha List.not_mem_nil) List.nodup_nil
    exact not_fails_of_settled hnodup hsettled hsome (hmem a ha)
  · intro hall
    by_contra hevents
    obtain ⟨a, ha, hfails⟩ := h.fails (leads_nil roots) hevents
    exact hall a ha hfails

end Order

section Total

variable [DecidableEq α]

theorem card_entered {U : Finset α} {path : List α} {a : α} (ha : a ∈ U) (hpath : a ∉ path) :
    (U \ (path ++ [a]).toFinset).card < (U \ path.toFinset).card := by
  refine Finset.card_lt_card (Finset.ssubset_iff_subset_ne.mpr ⟨?_, fun heq => ?_⟩)
  · intro b hb
    simp only [Finset.mem_sdiff, List.mem_toFinset, List.mem_append] at hb ⊢
    exact ⟨hb.1, fun hmem => hb.2 (.inl hmem)⟩
  · have hmem : a ∈ U \ path.toFinset := by simp [ha, hpath]
    rw [← heq] at hmem
    simp at hmem

/-- A search through a finite part of the graph that no edge leaves comes to an end. -/
theorem exists_traverse {U : Finset α} (hU : ∀ a ∈ U, ∀ b, Edge next a b → b ∈ U)
    (path pending done : List α) (hpending : ∀ a ∈ pending, a ∈ U) :
    ∃ done' events, Traverse next path pending done done' events := by
  induction hn : (U \ path.toFinset).card using Nat.strong_induction_on
    generalizing path pending done with
  | _ n ih =>
      subst hn
      induction pending generalizing done with
      | nil => exact ⟨done, [], .nil⟩
      | cons a rest ihrest =>
          have hrest (done : List α) := ihrest done fun b hb =>
            hpending b (List.mem_cons_of_mem _ hb)
          have ha := hpending a List.mem_cons_self
          by_cases hdone : a ∈ done
          · obtain ⟨done', events, h⟩ := hrest done
            exact ⟨done', events, .known hdone h⟩
          · by_cases hpath : a ∈ path
            · obtain ⟨done', events, h⟩ := hrest done
              exact ⟨done', _, .loop hdone hpath h⟩
            · cases hnext : next a with
              | none =>
                  obtain ⟨done', events, h⟩ := hrest done
                  exact ⟨done', _, .absent hdone hpath hnext h⟩
              | some successors =>
                  obtain ⟨mid, below, hbelow⟩ := ih _ (card_entered ha hpath) (path ++ [a])
                    successors done (fun b hb => hU a ha b ⟨_, hnext, hb⟩) rfl
                  obtain ⟨done', events, h⟩ := hrest (mid ++ [a])
                  exact ⟨done', _, .enter hdone hpath hnext hbelow h⟩

end Total

end Prodinamik.Lib.DepthFirst

/-! A search that keeps the nodes it has visited and nothing else. -/

namespace Prodinamik.Lib.Preorder

open Relation

variable {α : Type}

/-- A depth-first search through a list of nodes; fresh are the nodes that it visits, in
the order in which it comes to them. -/
inductive Visit (next : α → List α) : List α → List α → List α → Prop
  | nil {visited : List α} : Visit next visited [] []
  | known {visited rest fresh : List α} {a : α} (ha : a ∈ visited)
      (hrest : Visit next visited rest fresh) : Visit next visited (a :: rest) fresh
  | enter {visited rest below fresh : List α} {a : α} (ha : a ∉ visited)
      (hbelow : Visit next (visited ++ [a]) (next a) below)
      (hrest : Visit next (visited ++ a :: below) rest fresh) :
      Visit next visited (a :: rest) (a :: below ++ fresh)

abbrev Reaches (next : α → List α) : α → α → Prop := ReflTransGen fun a b => b ∈ next a

variable {next : α → List α} {visited pending fresh : List α}

theorem Visit.append {rest fresh' : List α} (h : Visit next visited pending fresh)
    (hrest : Visit next (visited ++ fresh) rest fresh') :
    Visit next visited (pending ++ rest) (fresh ++ fresh') := by
  induction h with
  | nil => simpa using hrest
  | known ha _ ih => exact .known ha (ih hrest)
  | @enter visited _ below fresh a ha hbelow _ _ ih =>
      have hsplit := ih (by simpa using hrest)
      simpa using Visit.enter ha hbelow hsplit

theorem Visit.nodup (h : Visit next visited pending fresh) (hvisited : visited.Nodup) :
    (visited ++ fresh).Nodup := by
  induction h with
  | nil => simpa using hvisited
  | known _ _ ih => exact ih hvisited
  | @enter visited _ below fresh a ha _ _ ihbelow ih =>
      have hentered : (visited ++ [a]).Nodup :=
        hvisited.append (List.nodup_singleton a) (List.disjoint_singleton.mpr ha)
      have hmid := ihbelow hentered
      simpa using ih (by simpa using hmid)

theorem Visit.covers (h : Visit next visited pending fresh) : pending ⊆ visited ++ fresh := by
  induction h with
  | nil => exact List.nil_subset _
  | known ha _ ih => exact List.cons_subset.mpr ⟨List.mem_append_left _ ha, ih⟩
  | @enter visited _ below fresh a _ _ _ _ ih =>
      refine List.cons_subset.mpr ⟨by simp, fun b hb => ?_⟩
      simpa using ih hb

/-- The successors of a node that is visited are visited too. -/
theorem Visit.closed (h : Visit next visited pending fresh) :
    ∀ a ∈ fresh, next a ⊆ visited ++ fresh := by
  induction h with
  | nil => exact fun a ha => absurd ha List.not_mem_nil
  | known _ _ ih => exact ih
  | @enter visited _ below fresh a _ hbelow _ ihbelow ih =>
      have hmid : ∀ b, b ∈ visited ++ [a] ++ below → b ∈ visited ++ (a :: below ++ fresh) := by
        intro b hb
        simp only [List.mem_append, List.mem_singleton, List.mem_cons] at hb ⊢
        tauto
      intro b hb c hc
      rcases List.mem_append.mp hb with hb | hb
      · rcases List.mem_cons.mp hb with rfl | hb
        · exact hmid c (hbelow.covers hc)
        · exact hmid c (ihbelow b hb hc)
      · simpa using ih b hb hc

theorem Visit.reached (h : Visit next visited pending fresh) :
    ∀ a ∈ fresh, ∃ b ∈ pending, Reaches next b a := by
  induction h with
  | nil => exact fun a ha => absurd ha List.not_mem_nil
  | known _ _ ih =>
      intro a ha
      obtain ⟨b, hb, hreach⟩ := ih a ha
      exact ⟨b, List.mem_cons_of_mem _ hb, hreach⟩
  | @enter visited _ below fresh a _ _ _ ihbelow ih =>
      intro b hb
      rcases List.mem_append.mp hb with hb | hb
      · rcases List.mem_cons.mp hb with rfl | hb
        · exact ⟨b, List.mem_cons_self, .refl⟩
        · obtain ⟨c, hc, hreach⟩ := ihbelow b hb
          exact ⟨a, List.mem_cons_self, .head hc hreach⟩
      · obtain ⟨c, hc, hreach⟩ := ih b hb
        exact ⟨c, List.mem_cons_of_mem _ hc, hreach⟩

/-- A search that starts with nothing visits all that can be reached and nothing else. -/
theorem Visit.mem_iff (h : Visit next [] pending fresh) (a : α) :
    a ∈ fresh ↔ ∃ b ∈ pending, Reaches next b a := by
  refine ⟨h.reached a, ?_⟩
  rintro ⟨b, hb, hreach⟩
  have hcovers := h.covers
  have hclosed := h.closed
  rw [List.nil_append] at hcovers hclosed
  induction hreach with
  | refl => exact hcovers hb
  | tail _ hedge ih => exact hclosed _ ih hedge

end Prodinamik.Lib.Preorder
