import Prodinamik.Lib.Text
import Prodinamik.Safety.Cascade
import Prodinamik.Safety.Delivery

namespace Prodinamik.Safety

/-- The handlers of a bus: the two of the orchestrator and any others. -/
inductive ChainHandler (H : Type)
  | software
  | content
  | other (handler : H)
  deriving DecidableEq

/-- The data of an event, a dict of texts. -/
abbrev EventData := String → Option String

namespace CrossProfileOrchestrator

variable {H A : Type}

def setupSoftwareReleaseChain (b : EventBus (ChainHandler H)) : EventBus (ChainHandler H) :=
  b.subscribe "release.published" .software

def setupContentAnnouncementChain (b : EventBus (ChainHandler H)) : EventBus (ChainHandler H) :=
  b.subscribe "announcement.needed" .content

def teardown [DecidableEq H] (b : EventBus (ChainHandler H)) : EventBus (ChainHandler H) :=
  (b.unsubscribe "release.published" .software).unsubscribe "announcement.needed" .content

def announcement (e : BusEvent) : BusEvent where
  type := "announcement.needed"
  sourceProfile := "software"
  sourceSlug := e.sourceSlug
  traceId := e.traceId
  hopCount := e.hopCount + 1

def announcementData (data : EventData) : EventData := fun key =>
  if key = "version" then some ((data "version").getD "?")
  else if key = "changelog" then some ((data "changelog").getD "")
  else none

-- whether a callback raises, and with what text
variable (onRelease onAnnouncement : BusEvent → EventData → Option String)
  (others : H → BusEvent → EventData → Handling EventData A)

def react : ChainHandler H → BusEvent → EventData → Handling EventData A
  | .software, e, data =>
      if e.type = "release.published" then
        .emit (announcement e) (announcementData data) (.ended (onRelease e data))
      else .ended none
  | .content, e, data =>
      .ended (if e.type = "announcement.needed" then onAnnouncement e data else none)
  | .other handler, e, data => others handler e data

/-- The chains are set up on a bus that has other subscribers. -/
def chained (subscribers : String → List H) : EventBus (ChainHandler H) :=
  setupContentAnnouncementChain (setupSoftwareReleaseChain
    { subscribers := fun eventType => (subscribers eventType).map .other })

theorem subscribers_chained (subscribers : String → List H) (eventType : String) :
    (chained subscribers).subscribers eventType = (subscribers eventType).map .other ++
      (if eventType = "release.published" then [.software]
      else if eventType = "announcement.needed" then [.content] else []) := by
  simp only [chained, setupContentAnnouncementChain, setupSoftwareReleaseChain,
    EventBus.subscribe]
  by_cases hrelease : eventType = "release.published"
  · subst hrelease
    simp
  · by_cases hneeded : eventType = "announcement.needed"
    · subst hneeded
      simp
    · simp [hrelease, hneeded]

/-- Taking the chains down leaves the other subscribers as they are. -/
theorem subscribers_teardown [DecidableEq H] (subscribers : String → List H) (eventType : String) :
    (teardown (chained subscribers)).subscribers eventType =
      (subscribers eventType).map .other := by
  have hsoftware : ChainHandler.software ∉ (subscribers "release.published").map
      (ChainHandler.other (H := H)) := by simp
  have hcontent : ChainHandler.content ∉ (subscribers "announcement.needed").map
      (ChainHandler.other (H := H)) := by simp
  simp only [teardown, EventBus.unsubscribe]
  by_cases hneeded : eventType = "announcement.needed"
  · subst hneeded
    rw [Function.update_self, Function.update_of_ne (by decide), subscribers_chained,
      List.erase_append_right _ hcontent]
    simp
  · rw [Function.update_of_ne hneeded]
    by_cases hrelease : eventType = "release.published"
    · subst hrelease
      rw [Function.update_self, subscribers_chained, List.erase_append_right _ hsoftware]
      simp
    · rw [Function.update_of_ne hrelease, subscribers_chained, if_neg hrelease, if_neg hneeded,
        List.append_nil]

end CrossProfileOrchestrator

namespace BusEvent

/-- The text of a trace id and a type tells them apart where types have no colon. -/
theorem eq_traceKey_iff {e : BusEvent} {traceId eventType : String} (h : ':' ∉ e.type.toList)
    (h' : ':' ∉ eventType.toList) :
    traceId ++ ":" ++ eventType = e.traceKey ↔ traceId = e.traceId ∧ eventType = e.type := by
  have hlist : ∀ t u : String, (t ++ ":" ++ u).toList.reverse =
      u.toList.reverse ++ ':' :: t.toList.reverse := by simp
  constructor
  · intro heq
    have hreverse := hlist traceId eventType
    rw [heq, traceKey, hlist] at hreverse
    have hpartition := congrArg (Lib.Text.partition ':') hreverse
    rw [Lib.Text.partition_append (by simpa using h), Lib.Text.partition_append (by simpa using h')]
      at hpartition
    obtain ⟨htype, htrace⟩ := Prod.ext_iff.mp hpartition
    exact ⟨(String.toList_injective (List.reverse_injective htrace)).symm,
      (String.toList_injective (List.reverse_injective htype)).symm⟩
  · rintro ⟨htrace, htype⟩
    rw [traceKey, htrace, htype]

end BusEvent

namespace Cascade

variable {H D A : Type} [DecidableEq H] {react : H → BusEvent → D → Handling D A}
  {s : Cascade H D A}

/-- The calls of a handler for a trace that have ended. -/
def handled (s : Cascade H D A) (handler : H) (traceId : String) : List (BusEvent × D) :=
  (s.ended.filter fun x => x.1 = handler ∧ x.2.1.traceId = traceId).map (·.2)

/-- The calls of a handler for a trace that are in the event loop. -/
def waiting (s : Cascade H D A) (handler : H) (traceId : String) : List (BusEvent × D) :=
  (s.tasks.filter fun u => u.handler = handler ∧ u.event.traceId = traceId).map fun u =>
    (u.event, u.data)

/-- An event that the bus hands to its subscribers. -/
def Accepts (s : Cascade H D A) (e : BusEvent) : Prop :=
  e.hopCount < EventBus.maxHops ∧ e.traceKey ∉ s.bus.seenTraces

instance (s : Cascade H D A) (e : BusEvent) : Decidable (s.Accepts e) :=
  inferInstanceAs (Decidable (_ ∧ _))

omit [DecidableEq H] in
theorem bus_emit_accepted {e : BusEvent} (h : s.Accepts e) (timestamp : String) :
    s.bus.emit e timestamp = ({ s.bus with seenTraces := e.traceKey :: s.bus.seenTraces },
      (s.bus.subscribers e.type).map fun handler => (handler, e)) := by
  rw [EventBus.emit, if_neg (not_le.mpr h.1), if_neg h.2]

omit [DecidableEq H] in
theorem bus_emit_rejected {e : BusEvent} (h : ¬ s.Accepts e) (timestamp : String) :
    (s.bus.emit e timestamp).1.seenTraces = s.bus.seenTraces ∧ (s.bus.emit e timestamp).2 = [] := by
  rw [EventBus.emit]
  split
  · exact ⟨rfl, rfl⟩
  split
  · exact ⟨rfl, rfl⟩
  · rename_i hhops hseen
    exact absurd ⟨not_le.mp hhops, hseen⟩ h

omit [DecidableEq H] in
theorem seenTraces_emit (e : BusEvent) (data : D) (timestamp key : String) :
    key ∈ (s.emit react e data timestamp).bus.seenTraces ↔
      key ∈ s.bus.seenTraces ∨ s.Accepts e ∧ key = e.traceKey := by
  change key ∈ (s.bus.emit e timestamp).1.seenTraces ↔ _
  by_cases h : s.Accepts e
  · rw [bus_emit_accepted h, List.mem_cons]
    tauto
  · rw [(bus_emit_rejected h timestamp).1]
    tauto

@[simp]
theorem handled_emit (e : BusEvent) (data : D) (timestamp : String) (handler : H)
    (traceId : String) :
    (s.emit react e data timestamp).handled handler traceId = s.handled handler traceId := rfl

/-- An event that is handed on starts a call of each subscription to its type. -/
theorem waiting_emit (e : BusEvent) (data : D) (timestamp : String) (handler : H)
    (traceId : String) :
    (s.emit react e data timestamp).waiting handler traceId = s.waiting handler traceId ++
      if s.Accepts e ∧ e.traceId = traceId then
        List.replicate ((s.bus.subscribers e.type).count handler) (e, data) else [] := by
  have hcount : (s.bus.subscribers e.type).filter (· = handler) =
      List.replicate ((s.bus.subscribers e.type).count handler) handler := List.filter_eq handler
  rw [waiting, emit, List.filter_append, List.map_append]
  refine congrArg (s.waiting handler traceId ++ ·) ?_
  by_cases h : s.Accepts e
  · rw [bus_emit_accepted h, List.map_map, List.filter_map]
    by_cases htrace : e.traceId = traceId
    · rw [if_pos ⟨h, htrace⟩, List.map_map]
      refine Eq.trans (congrArg _ (List.filter_congr fun x _ => ?_))
        ((congrArg (List.map fun _ => (e, data)) hcount).trans List.map_replicate)
      simp [htrace]
    · rw [if_neg fun hboth => htrace hboth.2, List.filter_eq_nil_iff.mpr (by simp [htrace])]
      rfl
  · rw [(bus_emit_rejected h timestamp).2, if_neg fun hboth => h hboth.1]
    rfl

theorem waiting_eraseIdx {i : Nat} {u : HandlerTask H D A} (hi : s.tasks[i]? = some u)
    (handler : H) (traceId : String) : (s.waiting handler traceId).Perm
      ((if u.handler = handler ∧ u.event.traceId = traceId then [(u.event, u.data)] else []) ++
        { s with tasks := s.tasks.eraseIdx i }.waiting handler traceId) := by
  obtain ⟨hlt, hu⟩ := List.getElem?_eq_some_iff.mp hi
  have hperm := List.getElem_cons_eraseIdx_perm hlt
  rw [hu] at hperm
  refine ((hperm.filter _).map _).symm.trans (List.Perm.of_eq ?_)
  rw [List.filter_cons]
  split <;> simp_all [waiting]

end Cascade

namespace CrossProfileOrchestrator

variable {H A : Type} [DecidableEq H]

/-- The release of a trace that the bus hands on: the first below the limit of hops. -/
def released (s : Cascade (ChainHandler H) EventData A) (traceId : String) :
    Option (BusEvent × EventData) :=
  s.emitted.find? fun x => x.1.type = "release.published" ∧ x.1.traceId = traceId ∧
    x.1.hopCount < EventBus.maxHops

/-- The announcements that releases lead to: none where they would have too many hops. -/
def announced (releases : List (BusEvent × EventData)) : List (BusEvent × EventData) :=
  (releases.filter fun x => x.1.hopCount + 1 < EventBus.maxHops).map fun x =>
    (announcement x.1, announcementData x.2)

theorem announced_singleton (x : BusEvent × EventData) :
    announced [x] = if x.1.hopCount + 1 < EventBus.maxHops then
      [(announcement x.1, announcementData x.2)] else [] := by
  rw [announced, List.filter_cons, List.filter_nil]
  simp only [decide_eq_true_eq]
  split <;> rfl

/-- What others emit: no announcements, and no types with a colon. -/
def Foreign (e : BusEvent) : Prop := e.type ≠ "announcement.needed" ∧ ':' ∉ e.type.toList

variable (onRelease onAnnouncement : BusEvent → EventData → Option String)
  (others : H → BusEvent → EventData → Handling EventData A) (subscribers : String → List H)

/-- The bus of the orchestrator, and no call of its handlers has begun. -/
structure Wired (s : Cascade (ChainHandler H) EventData A) : Prop where
  subscribers : s.bus.subscribers = (chained subscribers).subscribers
  software : ∀ u ∈ s.tasks, u.handler = .software → u.event.type = "release.published" ∧
    u.left = react onRelease onAnnouncement others .software u.event u.data
  content : ∀ u ∈ s.tasks, u.handler = .content → u.event.type = "announcement.needed" ∧
    u.left = react onRelease onAnnouncement others .content u.event u.data
  other : ∀ u ∈ s.tasks, ∀ handler, u.handler = .other handler → ∀ e data,
    u.left.Emits e data → Foreign e

/-- How far the chain of a trace has come. -/
structure Chained (s : Cascade (ChainHandler H) EventData A) (traceId : String) : Prop where
  releases : (s.handled .software traceId ++ s.waiting .software traceId).Perm
    (released s traceId).toList
  seenRelease : traceId ++ ":" ++ "release.published" ∈ s.bus.seenTraces ↔
    (released s traceId).isSome
  announcements : (s.handled .content traceId ++ s.waiting .content traceId).Perm
    (announced (s.handled .software traceId))
  seenAnnouncement : traceId ++ ":" ++ "announcement.needed" ∈ s.bus.seenTraces ↔
    announced (s.handled .software traceId) ≠ []

variable {onRelease onAnnouncement others subscribers}
  {s s' : Cascade (ChainHandler H) EventData A} {traceId : String}

theorem count_software (eventType : String) :
    ((chained subscribers).subscribers eventType).count .software =
      if eventType = "release.published" then 1 else 0 := by
  rw [subscribers_chained, List.count_append, List.count_eq_zero.mpr (by simp), Nat.zero_add]
  split
  · rfl
  · split <;> rfl

theorem count_content (eventType : String) :
    ((chained subscribers).subscribers eventType).count .content =
      if eventType = "announcement.needed" then 1 else 0 := by
  rw [subscribers_chained, List.count_append, List.count_eq_zero.mpr (by simp), Nat.zero_add]
  by_cases hrelease : eventType = "release.published"
  · subst hrelease
    rfl
  · rw [if_neg hrelease]
    split <;> rfl

omit [DecidableEq H] in
theorem released_emit (react : ChainHandler H → BusEvent → EventData → Handling EventData A)
    (e : BusEvent) (data : EventData) (timestamp : String) :
    released (s.emit react e data timestamp) traceId = (released s traceId).or
      (if e.type = "release.published" ∧ e.traceId = traceId ∧ e.hopCount < EventBus.maxHops then
        some (e, data) else none) := by
  rw [released, Cascade.emit, List.find?_append, List.find?_singleton]
  simp only [decide_eq_true_eq]
  rfl

theorem Chained.of_same (h : Chained s traceId)
    (hsoftware : s'.handled .software traceId = s.handled .software traceId)
    (hreleases : (s'.waiting .software traceId).Perm (s.waiting .software traceId))
    (hcontent : (s'.handled .content traceId ++ s'.waiting .content traceId).Perm
      (s.handled .content traceId ++ s.waiting .content traceId))
    (hemitted : s'.emitted = s.emitted) (hseen : s'.bus.seenTraces = s.bus.seenTraces) :
    Chained s' traceId where
  releases := by
    rw [hsoftware, released, hemitted]
    exact (hreleases.append_left _).trans h.releases
  seenRelease := by
    rw [hseen, released, hemitted]
    exact h.seenRelease
  announcements := by
    rw [hsoftware]
    exact hcontent.trans h.announcements
  seenAnnouncement := by
    rw [hseen, hsoftware]
    exact h.seenAnnouncement

theorem Wired.waiting_software (hw : Wired onRelease onAnnouncement others subscribers s)
    (e : BusEvent) (data : EventData) (timestamp : String) :
    (s.emit (react onRelease onAnnouncement others) e data timestamp).waiting .software traceId =
      s.waiting .software traceId ++ if e.type = "release.published" ∧ s.Accepts e ∧
        e.traceId = traceId then [(e, data)] else [] := by
  rw [Cascade.waiting_emit, hw.subscribers, count_software]
  by_cases htype : e.type = "release.published"
  · simp only [htype, true_and, if_true, List.replicate_one]
  · simp only [htype, false_and, if_false, List.replicate_zero, ite_self]

theorem Wired.waiting_content (hw : Wired onRelease onAnnouncement others subscribers s)
    (e : BusEvent) (data : EventData) (timestamp : String) :
    (s.emit (react onRelease onAnnouncement others) e data timestamp).waiting .content traceId =
      s.waiting .content traceId ++ if e.type = "announcement.needed" ∧ s.Accepts e ∧
        e.traceId = traceId then [(e, data)] else [] := by
  rw [Cascade.waiting_emit, hw.subscribers, count_content]
  by_cases htype : e.type = "announcement.needed"
  · simp only [htype, true_and, if_true, List.replicate_one]
  · simp only [htype, false_and, if_false, List.replicate_zero, ite_self]

theorem Chained.emit (hw : Wired onRelease onAnnouncement others subscribers s)
    (h : Chained s traceId) {e : BusEvent} (he : Foreign e) (data : EventData) (timestamp : String) :
    Chained (s.emit (react onRelease onAnnouncement others) e data timestamp) traceId := by
  have hneeded : traceId ++ ":" ++ "announcement.needed" ≠ e.traceKey := fun heq =>
    he.1 ((BusEvent.eq_traceKey_iff he.2 (by decide)).mp heq).2.symm
  have hrelease : traceId ++ ":" ++ "release.published" = e.traceKey ↔
      e.type = "release.published" ∧ e.traceId = traceId := by
    rw [BusEvent.eq_traceKey_iff he.2 (by decide), eq_comm, and_comm, @eq_comm _ e.type]
  have haccepts : e.type = "release.published" ∧ e.traceId = traceId ∧
      e.hopCount < EventBus.maxHops → (s.Accepts e ↔ released s traceId = none) := by
    rintro ⟨htype, htrace, hhops⟩
    rw [Cascade.Accepts, ← hrelease.mpr ⟨htype, htrace⟩, h.seenRelease, Option.isSome_iff_ne_none,
      not_not]
    exact and_iff_right hhops
  have hadded : (if e.type = "release.published" ∧ s.Accepts e ∧ e.traceId = traceId then
      [(e, data)] else []) =
      if (e.type = "release.published" ∧ e.traceId = traceId ∧ e.hopCount < EventBus.maxHops) ∧
        released s traceId = none then [(e, data)] else [] := by
    refine if_congr ⟨fun h => ?_, fun h => ?_⟩ rfl rfl
    · have hnow := And.intro h.1 (And.intro h.2.2 h.2.1.1)
      exact ⟨hnow, (haccepts hnow).mp h.2.1⟩
    · exact ⟨h.1.1, (haccepts h.1).mpr h.2, h.1.2.1⟩
  refine ⟨?_, ?_, ?_, ?_⟩
  · rw [Cascade.handled_emit, hw.waiting_software, hadded, released_emit]
    have hreleases := h.releases
    cases hrel : released s traceId with
    | some x =>
        rw [hrel] at hreleases
        simpa using hreleases
    | none =>
        rw [hrel] at hreleases
        rw [← List.append_assoc, List.Perm.eq_nil hreleases]
        split <;> simp_all
  · rw [Cascade.seenTraces_emit, hrelease, h.seenRelease, released_emit]
    cases hrel : released s traceId with
    | some x => simp
    | none =>
        simp only [Option.isSome_none, Bool.false_eq_true, false_or, Option.none_or]
        split
        case isTrue hnow =>
          exact iff_of_true ⟨(haccepts hnow).mpr hrel, hnow.1, hnow.2.1⟩ rfl
        case isFalse hnow =>
          exact iff_of_false (fun hboth => hnow ⟨hboth.2.1, hboth.2.2, hboth.1.1⟩)
            Bool.false_ne_true
  · rw [hw.waiting_content, if_neg fun hboth => he.1 hboth.1, List.append_nil]
    exact h.announcements
  · rw [Cascade.seenTraces_emit, or_iff_left fun hboth => hneeded hboth.2]
    exact h.seenAnnouncement

/-- Other handlers emit no announcements. -/
def AllForeign (others : H → BusEvent → EventData → Handling EventData A) : Prop :=
  ∀ handler e data e' data', (others handler e data).Emits e' data' → Foreign e'

theorem Wired.of_subset (hw : Wired onRelease onAnnouncement others subscribers s)
    (hsubscribers : s'.bus.subscribers = s.bus.subscribers) (htasks : ∀ u ∈ s'.tasks, u ∈ s.tasks) :
    Wired onRelease onAnnouncement others subscribers s' where
  subscribers := hsubscribers.trans hw.subscribers
  software := fun u hu => hw.software u (htasks u hu)
  content := fun u hu => hw.content u (htasks u hu)
  other := fun u hu => hw.other u (htasks u hu)

theorem Wired.requeue (hw : Wired onRelease onAnnouncement others subscribers s)
    {u : HandlerTask (ChainHandler H) EventData A} {handler : H}
    (hhandler : u.handler = .other handler) (hforeign : ∀ e data, u.left.Emits e data → Foreign e) :
    Wired onRelease onAnnouncement others subscribers { s with tasks := s.tasks ++ [u] } := by
  refine ⟨hw.subscribers, fun x hx hx' => ?_, fun x hx hx' => ?_, fun x hx handler' hx' => ?_⟩
  all_goals
    rcases List.mem_append.mp hx with hx | hx
    swap
    obtain rfl := List.mem_singleton.mp hx
  · exact absurd (hx'.symm.trans hhandler) (by simp)
  · exact hw.software x hx hx'
  · exact absurd (hx'.symm.trans hhandler) (by simp)
  · exact hw.content x hx hx'
  · exact hforeign
  · exact hw.other x hx handler' hx'

theorem Wired.emit (hothers : AllForeign others)
    (hw : Wired onRelease onAnnouncement others subscribers s) (e : BusEvent) (data : EventData)
    (timestamp : String) : Wired onRelease onAnnouncement others subscribers
      (s.emit (react onRelease onAnnouncement others) e data timestamp) := by
  have hnew : ∀ u ∈ (s.bus.emit e timestamp).2.map fun c => HandlerTask.mk c.1 c.2 data
      (react onRelease onAnnouncement others c.1 c.2 data),
      u.handler ∈ (chained subscribers).subscribers u.event.type ∧
        u.left = react onRelease onAnnouncement others u.handler u.event u.data := by
    intro u hu
    obtain ⟨c, hc, rfl⟩ := List.mem_map.mp hu
    obtain ⟨hevent, -, hmem, -⟩ := EventBus.mem_emit hc
    rw [hw.subscribers] at hmem
    exact ⟨by rw [hevent]; exact hmem, rfl⟩
  refine ⟨(BusRun.emit_subscribers _ _ _).trans hw.subscribers, fun u hu hhandler => ?_,
    fun u hu hhandler => ?_, fun u hu handler hhandler e' data' hemits => ?_⟩
  · rcases List.mem_append.mp hu with hu | hu
    · exact hw.software u hu hhandler
    · obtain ⟨hmem, hleft⟩ := hnew u hu
      rw [hhandler] at hmem hleft
      refine ⟨?_, hleft⟩
      by_contra htype
      exact absurd (List.count_pos_iff.mpr hmem) (by rw [count_software, if_neg htype]; decide)
  · rcases List.mem_append.mp hu with hu | hu
    · exact hw.content u hu hhandler
    · obtain ⟨hmem, hleft⟩ := hnew u hu
      rw [hhandler] at hmem hleft
      refine ⟨?_, hleft⟩
      by_contra htype
      exact absurd (List.count_pos_iff.mpr hmem) (by rw [count_content, if_neg htype]; decide)
  · rcases List.mem_append.mp hu with hu | hu
    · exact hw.other u hu handler hhandler e' data' hemits
    · rw [(hnew u hu).2, hhandler] at hemits
      exact hothers _ _ _ _ _ hemits

omit [DecidableEq H] in
theorem safeCall_same (b : EventBus (ChainHandler H)) (raised : Option String) (e : BusEvent)
    (timestamp : String) : (b.safeCall raised e timestamp).subscribers = b.subscribers ∧
      (b.safeCall raised e timestamp).seenTraces = b.seenTraces := by
  cases raised <;> exact ⟨rfl, rfl⟩

/-- The work of another handler leaves the chain of a trace in order. -/
theorem Chained.work (hothers : AllForeign others) (answer : A) (timestamp : String)
    (event : BusEvent) {handling : Handling EventData A}
    (hforeign : ∀ e data, handling.Emits e data → Foreign e)
    (hw : Wired onRelease onAnnouncement others subscribers s) (h : Chained s traceId) :
    Wired onRelease onAnnouncement others subscribers (Cascade.work
      (react onRelease onAnnouncement others) answer timestamp event handling s).1 ∧
    Chained (Cascade.work (react onRelease onAnnouncement others) answer timestamp event handling
      s).1 traceId := by
  induction handling generalizing s with
  | ended raised =>
      obtain ⟨hsubscribers, hseen⟩ := safeCall_same s.bus raised event timestamp
      exact ⟨hw.of_subset hsubscribers fun u hu => hu,
        h.of_same rfl (List.Perm.refl _) (List.Perm.refl _) rfl hseen⟩
  | emit e data rest ih =>
      exact ih (fun e' data' hemits => hforeign e' data' (.afterEmit e data hemits))
        (hw.emit hothers e data timestamp)
        (h.emit hw (hforeign e data (.now e data rest)) data timestamp)
  | await next ih => exact ⟨hw, h⟩

theorem Chained.turn_other (hothers : AllForeign others)
    (hw : Wired onRelease onAnnouncement others subscribers s) (h : Chained s traceId) {i : Nat}
    {u : HandlerTask (ChainHandler H) EventData A} (hi : s.tasks[i]? = some u) {handler : H}
    (hhandler : u.handler = .other handler) (answer : A) (timestamp : String) :
    Wired onRelease onAnnouncement others subscribers
      (s.turn (react onRelease onAnnouncement others) i answer timestamp) ∧
    Chained (s.turn (react onRelease onAnnouncement others) i answer timestamp) traceId := by
  have hmem := List.mem_of_getElem? hi
  have hleft := hw.other u hmem handler hhandler
  have hw0 : Wired onRelease onAnnouncement others subscribers
      { s with tasks := s.tasks.eraseIdx i } :=
    hw.of_subset rfl fun x hx => List.mem_of_mem_eraseIdx hx
  have hwaiting : ∀ handler', handler' ≠ .other handler →
      (Cascade.waiting { s with tasks := s.tasks.eraseIdx i } handler' traceId).Perm
        (s.waiting handler' traceId) := by
    intro handler' hne
    have hperm := Cascade.waiting_eraseIdx hi handler' traceId
    rw [if_neg fun hboth => hne (hboth.1.symm.trans hhandler), List.nil_append] at hperm
    exact hperm.symm
  have h0 : Chained { s with tasks := s.tasks.eraseIdx i } traceId :=
    h.of_same rfl (hwaiting .software (by simp)) ((hwaiting .content (by simp)).append_left _) rfl
      rfl
  obtain ⟨hw1, h1⟩ := h0.work hothers answer timestamp u.event hleft hw0
  obtain ⟨-, hlater⟩ := @Cascade.work_tasks _ _ _ (react onRelease onAnnouncement others) answer
    timestamp u.event u.left { s with tasks := s.tasks.eraseIdx i }
  rw [Cascade.turn, hi]
  simp only
  generalize Cascade.work (react onRelease onAnnouncement others) answer timestamp u.event u.left
    { s with tasks := s.tasks.eraseIdx i } = r at hw1 h1 hlater
  obtain ⟨s', rest⟩ := r
  cases rest with
  | none =>
      refine ⟨hw1.of_subset rfl fun x hx => hx, h1.of_same ?_ (List.Perm.refl _) ?_ rfl rfl⟩
      · simp [Cascade.handled, hhandler]
      · simp [Cascade.handled, Cascade.waiting, hhandler]
  | some left =>
      refine ⟨hw1.requeue hhandler fun e data hemits =>
        hleft e data (hemits.of_transGen (hlater left rfl)), h1.of_same rfl ?_ ?_ rfl rfl⟩
      · simp [Cascade.waiting, hhandler]
      · simp [Cascade.handled, Cascade.waiting, hhandler]

theorem Chained.turn_content
    (hw : Wired onRelease onAnnouncement others subscribers s) (h : Chained s traceId) {i : Nat}
    {u : HandlerTask (ChainHandler H) EventData A} (hi : s.tasks[i]? = some u)
    (hhandler : u.handler = .content) (answer : A) (timestamp : String) :
    Wired onRelease onAnnouncement others subscribers
      (s.turn (react onRelease onAnnouncement others) i answer timestamp) ∧
    Chained (s.turn (react onRelease onAnnouncement others) i answer timestamp) traceId := by
  obtain ⟨-, hleft⟩ := hw.content u (List.mem_of_getElem? hi) hhandler
  rw [Cascade.turn, hi]
  simp only
  rw [hleft, react]
  simp only [Cascade.work]
  have hsoftware := Cascade.waiting_eraseIdx hi .software traceId
  have hcontent := Cascade.waiting_eraseIdx hi .content traceId
  rw [if_neg (by simp [hhandler]), List.nil_append] at hsoftware
  obtain ⟨hsubscribers, hseen⟩ := safeCall_same s.bus
    (if u.event.type = "announcement.needed" then onAnnouncement u.event u.data else none) u.event
    timestamp
  refine ⟨hw.of_subset hsubscribers fun x hx => List.mem_of_mem_eraseIdx hx,
    h.of_same ?_ hsoftware.symm ?_ rfl hseen⟩
  · simp [Cascade.handled, hhandler]
  · refine List.Perm.trans ?_ (hcontent.append_left _).symm
    simp only [Cascade.handled, List.filter_append, List.map_append, List.filter_cons,
      List.filter_nil, hhandler, true_and, List.append_assoc, decide_eq_true_eq]
    refine List.Perm.append_left _ (List.Perm.of_eq ?_)
    split <;> rfl

theorem Chained.turn_software (hothers : AllForeign others)
    (hw : Wired onRelease onAnnouncement others subscribers s) (h : Chained s traceId) {i : Nat}
    {u : HandlerTask (ChainHandler H) EventData A} (hi : s.tasks[i]? = some u)
    (hhandler : u.handler = .software) (answer : A) (timestamp : String) :
    Wired onRelease onAnnouncement others subscribers
      (s.turn (react onRelease onAnnouncement others) i answer timestamp) ∧
    Chained (s.turn (react onRelease onAnnouncement others) i answer timestamp) traceId := by
  obtain ⟨htype, hleft⟩ := hw.software u (List.mem_of_getElem? hi) hhandler
  have hw0 : Wired onRelease onAnnouncement others subscribers
      { s with tasks := s.tasks.eraseIdx i } :=
    hw.of_subset rfl fun x hx => List.mem_of_mem_eraseIdx hx
  have hwemit := hw0.emit hothers (announcement u.event) (announcementData u.data) timestamp
  rw [Cascade.turn, hi]
  simp only
  rw [hleft, react, if_pos htype]
  simp only [Cascade.work]
  refine ⟨hwemit.of_subset (safeCall_same _ _ _ _).1 fun x hx => hx, ?_⟩
  -- the parts of the chain after the turn, in terms of those before it
  have hsoftware := Cascade.waiting_eraseIdx hi .software traceId
  have hcontent := Cascade.waiting_eraseIdx hi .content traceId
  rw [if_neg (by simp [hhandler]), List.nil_append] at hcontent
  have hstays := @Wired.waiting_software H A _ onRelease onAnnouncement others subscribers _ traceId
    hw0 (announcement u.event) (announcementData u.data) timestamp
  have hcomes := @Wired.waiting_content H A _ onRelease onAnnouncement others subscribers _ traceId
    hw0 (announcement u.event) (announcementData u.data) timestamp
  have hreleased := @released_emit H A { s with tasks := s.tasks.eraseIdx i } traceId
    (react onRelease onAnnouncement others) (announcement u.event) (announcementData u.data) timestamp
  rw [if_neg (by simp [announcement]), List.append_nil] at hstays
  rw [if_neg (by simp [announcement]), Option.or_none] at hreleased
  have hcolon : ':' ∉ (announcement u.event).type.toList :=
    show ':' ∉ "announcement.needed".toList by decide
  have hneeded : traceId ++ ":" ++ "announcement.needed" = (announcement u.event).traceKey ↔
      u.event.traceId = traceId := by
    rw [BusEvent.eq_traceKey_iff hcolon (by decide), eq_comm]
    exact and_iff_left rfl
  have hrelease : traceId ++ ":" ++ "release.published" ≠ (announcement u.event).traceKey :=
    fun heq => absurd ((BusEvent.eq_traceKey_iff hcolon (by decide)).mp heq).2
      (show "release.published" ≠ "announcement.needed" by decide)
  have hsoftwareHandled : ((s.ended ++ [(u.handler, u.event, u.data)]).filter fun x =>
      x.1 = .software ∧ x.2.1.traceId = traceId).map (·.2) = s.handled .software traceId ++
        if u.event.traceId = traceId then [(u.event, u.data)] else [] := by
    rw [hhandler, List.filter_append, List.map_append, List.filter_cons, List.filter_nil]
    refine congrArg (s.handled .software traceId ++ ·) ?_
    simp only [true_and, decide_eq_true_eq]
    split <;> rfl
  have hcontentHandled : ((s.ended ++ [(u.handler, u.event, u.data)]).filter fun x =>
      x.1 = .content ∧ x.2.1.traceId = traceId).map (·.2) = s.handled .content traceId := by
    simp [Cascade.handled, hhandler]
  have hseen := (safeCall_same (Cascade.emit (react onRelease onAnnouncement others)
    { s with tasks := s.tasks.eraseIdx i } (announcement u.event) (announcementData u.data)
    timestamp).bus (onRelease u.event u.data) u.event timestamp).2
  by_cases htrace : u.event.traceId = traceId
  · rw [if_pos htrace] at hsoftwareHandled
    rw [if_pos ⟨hhandler, htrace⟩] at hsoftware
    have hreleases := (hsoftware.symm.append_left (s.handled .software traceId)).trans h.releases
    have hlength := hreleases.length_eq
    have hle : (released s traceId).toList.length ≤ 1 := Option.length_toList_le
    simp only [List.length_append, List.length_cons, List.length_nil] at hlength
    have hnone : s.handled .software traceId = [] := List.length_eq_zero_iff.mp (by omega)
    have hwaiting : Cascade.waiting { s with tasks := s.tasks.eraseIdx i } .software traceId = [] :=
      List.length_eq_zero_iff.mp (by omega)
    rw [hnone, hwaiting] at hreleases
    have hcalls := h.announcements
    rw [hnone] at hcalls
    have hnocalls := List.append_eq_nil_iff.mp hcalls.eq_nil
    have hunseen := h.seenAnnouncement
    rw [hnone] at hunseen
    have hnew : traceId ++ ":" ++ "announcement.needed" ∉ s.bus.seenTraces :=
      fun hmem => hunseen.mp hmem rfl
    have haccepts : Cascade.Accepts { s with tasks := s.tasks.eraseIdx i } (announcement u.event) ↔
        u.event.hopCount + 1 < EventBus.maxHops := by
      rw [Cascade.Accepts, ← hneeded.mpr htrace]
      exact and_iff_left hnew
    have hannounced := announced_singleton (u.event, u.data)
    rw [hnone, List.nil_append] at hsoftwareHandled
    refine ⟨?_, ?_, ?_, ?_⟩
    · refine List.Perm.trans (List.Perm.append (List.Perm.of_eq hsoftwareHandled)
        (List.Perm.of_eq (hstays.trans hwaiting))) ?_
      exact hreleases.trans (List.Perm.of_eq (congrArg _ hreleased.symm))
    · rw [hseen, Cascade.seenTraces_emit, or_iff_left fun hboth => hrelease hboth.2]
      exact h.seenRelease.trans
        (iff_of_eq (congrArg (fun found => Option.isSome found = true) hreleased.symm))
    · refine List.Perm.trans (List.Perm.append (List.Perm.of_eq (hcontentHandled.trans hnocalls.1))
        (List.Perm.of_eq hcomes)) ?_
      rw [(hcontent.symm.trans (List.Perm.of_eq hnocalls.2)).eq_nil, List.nil_append, List.nil_append]
      refine List.Perm.of_eq (Eq.trans ?_ (congrArg announced hsoftwareHandled.symm))
      rw [hannounced]
      refine if_congr ?_ rfl rfl
      rw [haccepts]
      exact ⟨fun hboth => hboth.2.1, fun hhops => ⟨rfl, hhops, htrace⟩⟩
    · rw [hseen, Cascade.seenTraces_emit, or_iff_right hnew,
        and_iff_left (hneeded.mpr htrace), haccepts]
      refine Iff.trans ?_ (not_congr (iff_of_eq (congrArg (announced · = []) hsoftwareHandled.symm)))
      rw [hannounced]
      split <;> simp_all
  · rw [if_neg htrace, List.append_nil] at hsoftwareHandled
    rw [if_neg fun hboth => htrace hboth.2, List.nil_append] at hsoftware
    rw [if_neg fun hboth => htrace hboth.2.2, List.append_nil] at hcomes
    refine ⟨?_, ?_, ?_, ?_⟩
    · refine List.Perm.trans ?_ (h.releases.trans (List.Perm.of_eq (congrArg _ hreleased.symm)))
      refine List.Perm.append (List.Perm.of_eq hsoftwareHandled) ?_
      exact (List.Perm.of_eq hstays).trans hsoftware.symm
    · rw [hseen, Cascade.seenTraces_emit, or_iff_left fun hboth => hrelease hboth.2]
      exact h.seenRelease.trans
        (iff_of_eq (congrArg (fun found => Option.isSome found = true) hreleased.symm))
    · refine List.Perm.trans (List.Perm.append (List.Perm.of_eq hcontentHandled)
        ((List.Perm.of_eq hcomes).trans hcontent.symm)) (h.announcements.trans (List.Perm.of_eq ?_))
      exact congrArg announced hsoftwareHandled.symm
    · rw [hseen, Cascade.seenTraces_emit, or_iff_left fun hboth => htrace (hneeded.mp hboth.2)]
      refine h.seenAnnouncement.trans (not_congr ?_)
      exact iff_of_eq (congrArg (announced · = []) hsoftwareHandled.symm)

theorem Chained.step (hothers : AllForeign others)
    (hw : Wired onRelease onAnnouncement others subscribers s) (h : Chained s traceId)
    {op : CascadeOp EventData A} (hop : ∀ e data timestamp, op = .emit e data timestamp → Foreign e) :
    Wired onRelease onAnnouncement others subscribers
      (s.step (react onRelease onAnnouncement others) op) ∧
    Chained (s.step (react onRelease onAnnouncement others) op) traceId := by
  cases op with
  | emit e data timestamp =>
      exact ⟨hw.emit hothers e data timestamp, h.emit hw (hop _ _ _ rfl) data timestamp⟩
  | turn i answer timestamp =>
      cases hi : s.tasks[i]? with
      | none =>
          rw [Cascade.step, Cascade.turn, hi]
          exact ⟨hw, h⟩
      | some u =>
          cases hhandler : u.handler with
          | software => exact h.turn_software hothers hw hi hhandler answer timestamp
          | content => exact h.turn_content hw hi hhandler answer timestamp
          | other handler => exact h.turn_other hothers hw hi hhandler answer timestamp

theorem chained_run (hothers : AllForeign others) (ops : List (CascadeOp EventData A))
    (hops : ∀ e data timestamp, .emit e data timestamp ∈ ops → Foreign e)
    (hw : Wired onRelease onAnnouncement others subscribers s) (h : Chained s traceId) :
    Chained (ops.foldl (Cascade.step (react onRelease onAnnouncement others)) s) traceId := by
  induction ops generalizing s with
  | nil => exact h
  | cons op ops ih =>
      obtain ⟨hw', h'⟩ := h.step hothers hw fun e data timestamp heq =>
        hops e data timestamp (heq ▸ List.mem_cons_self)
      exact ih (fun e data timestamp hmem => hops e data timestamp (List.mem_cons_of_mem _ hmem))
        hw' h'

theorem Chained.handled (h : Chained s traceId) :
    s.handled .software traceId ++ s.waiting .software traceId = (released s traceId).toList ∧
    s.handled .content traceId ++ s.waiting .content traceId =
      announced (s.handled .software traceId) := by
  have hreleases : s.handled .software traceId ++ s.waiting .software traceId =
      (released s traceId).toList := by
    have hperm := h.releases
    cases hrel : released s traceId with
    | none =>
        rw [hrel] at hperm
        exact hperm.eq_nil
    | some x =>
        rw [hrel] at hperm
        exact hperm.eq_singleton
  have hle : (s.handled .software traceId).length ≤ 1 := by
    have hlength := congrArg List.length hreleases
    have hone : (released s traceId).toList.length ≤ 1 := Option.length_toList_le
    rw [List.length_append] at hlength
    omega
  refine ⟨hreleases, ?_⟩
  have hperm := h.announcements
  match hhandled : s.handled .software traceId, hle with
  | [], _ =>
      rw [hhandled] at hperm
      exact hperm.eq_nil
  | [x], _ =>
      rw [hhandled, announced_singleton] at hperm
      rw [announced_singleton]
      split at hperm
      case isTrue hhops => rw [if_pos hhops]; exact hperm.eq_singleton
      case isFalse hhops => rw [if_neg hhops]; exact hperm.eq_nil

variable (onRelease onAnnouncement others subscribers) in
/-- A bus on which the chains are set up, after anything that happens on it. -/
def chain (ops : List (CascadeOp EventData A)) : Cascade (ChainHandler H) EventData A :=
  ops.foldl (Cascade.step (react onRelease onAnnouncement others))
    (Cascade.start (chained subscribers).subscribers)

def flux : BusEvent := ⟨"release.published", "software", "flux-v1", "trace-1", 1⟩

def fluxData : EventData := fun key => if key = "version" then some "1.0.0" else none

def fluxOps : List (CascadeOp EventData Unit) :=
  [.emit flux fluxData "", .emit flux fluxData "", .turn 0 () "", .turn 0 () ""]

end CrossProfileOrchestrator

end Prodinamik.Safety
