import Mathlib.Data.Rat.Floor
import Mathlib.Logic.Function.Basic
import Prodinamik.Access.AuthManager
import Prodinamik.Lib.TokenBucket

namespace Prodinamik.Access

open Lib.TokenBucket

/-- Times are seconds of the monotonic clock. -/
structure Bucket where
  tokens : Rat
  lastRefill : Rat
  burst : Rat := 0
  deriving DecidableEq, Repr

structure KeyStats where
  allowed : Nat := 0
  denied : Nat := 0
  last : Rat := 0
  deriving DecidableEq, Repr

structure RateLimiter where
  rate : Rat
  burst : Rat
  buckets : String → Option Bucket := fun _ => none
  stats : String → KeyStats := fun _ => {}

/-- A call of check and the time it is made at. -/
structure Check where
  key : String
  cost : Rat := 1
  now : Rat
  deriving DecidableEq, Repr

namespace RateLimiter

/-- __init__; a burst of 0 counts as none. -/
def init (rate : Rat) (burst : Option Rat) : RateLimiter where
  rate := rate
  burst := if burst.getD 0 = 0 then rate else burst.getD 0

/-- self._buckets[key] = bucket -/
def store (l : RateLimiter) (key : String) (b : Bucket) : RateLimiter :=
  { l with buckets := Function.update l.buckets key (some b) }

/-- The call is counted as allowed or denied. -/
def count (l : RateLimiter) (c : Check) (allowed : Bool) : RateLimiter :=
  let s := l.stats c.key
  { l with
    stats := Function.update l.stats c.key
      { allowed := s.allowed + allowed.toNat, denied := s.denied + (!allowed).toNat, last := c.now } }

/-- Whether the request is allowed and how long it has to wait. -/
def check (l : RateLimiter) (c : Check) : Except String (Bool × Rat) × RateLimiter :=
  match l.buckets c.key with
  | none =>
      let bucket := { tokens := max 0 (l.burst - c.cost), lastRefill := c.now, burst := l.burst }
      (.ok (true, 0), (l.store c.key bucket).count c true)
  | some bucket =>
      let newTokens := min l.burst (bucket.tokens + (c.now - bucket.lastRefill) * l.rate)
      let refilled := { bucket with tokens := newTokens, lastRefill := c.now }
      if newTokens ≥ c.cost then
        let spent := { refilled with tokens := newTokens - c.cost }
        (.ok (true, 0), (l.store c.key spent).count c true)
      -- the division comes before the count
      else if l.rate = 0 then (.error "division by zero", l.store c.key refilled)
      else
        (.ok (false, (c.cost - newTokens) / l.rate), (l.store c.key refilled).count c false)

def granted : Except String (Bool × Rat) → Bool
  | .ok (allowed, _) => allowed
  | .error _ => false

def allows (l : RateLimiter) (c : Check) : Bool := granted (l.check c).1

/-- The limiter after calls of check. -/
def run (l : RateLimiter) (calls : List Check) : RateLimiter :=
  calls.foldl (fun l c => (l.check c).2) l

/-- The total cost of the calls for a key that were allowed between two times. -/
def admitted (key : String) (start stop : Rat) : RateLimiter → List Check → Rat
  | _, [] => 0
  | l, c :: cs =>
      (if c.key = key ∧ l.allows c = true ∧ start ≤ c.now ∧ c.now ≤ stop then c.cost else 0) +
        admitted key start stop (l.check c).2 cs

/-- What the first call for a key costs beyond the burst, if it is made between two times. -/
def firstExcess (burst : Rat) (key : String) (start stop : Rat) (calls : List Check) : Rat :=
  match calls.find? fun c => c.key = key with
  | none => 0
  | some c => if start ≤ c.now ∧ c.now ≤ stop then max 0 (c.cost - burst) else 0

end RateLimiter

def Check.demand (c : Check) : Demand Rat := ⟨c.now, c.cost⟩

def Bucket.level (b : Bucket) : Level Rat := ⟨b.tokens, b.lastRefill⟩

namespace RateLimiter

variable {l : RateLimiter} {c : Check} {key : String} {start stop : Rat} {calls : List Check}

/-- A call stores a bucket for its key; the count is beside it. -/
theorem check_store (l : RateLimiter) (c : Check) : ∃ b stats,
    (l.check c).2 = { l.store c.key b with stats := stats } := by
  rw [check]
  split
  · exact ⟨_, _, rfl⟩
  · simp only
    split
    · exact ⟨_, _, rfl⟩
    · split <;> exact ⟨_, _, rfl⟩

theorem check_limits (l : RateLimiter) (c : Check) :
    (l.check c).2.rate = l.rate ∧ (l.check c).2.burst = l.burst := by
  obtain ⟨b, stats, hcheck⟩ := check_store l c
  rw [hcheck]
  exact ⟨rfl, rfl⟩

/-- A call leaves the buckets of the other keys alone. -/
theorem check_other (hkey : c.key ≠ key) : (l.check c).2.buckets key = l.buckets key := by
  obtain ⟨b, stats, hcheck⟩ := check_store l c
  rw [hcheck]
  exact Function.update_of_ne (Ne.symm hkey) _ _

theorem allows_first (hnone : l.buckets c.key = none) : l.allows c = true := by
  rw [allows, check, hnone]
  rfl

theorem check_first (hnone : l.buckets c.key = none) : (l.check c).2.buckets c.key =
    some { tokens := max 0 (l.burst - c.cost), lastRefill := c.now, burst := l.burst } := by
  rw [check, hnone]
  exact Function.update_self _ _ _

theorem check_met {b : Bucket} (hsome : l.buckets c.key = some b)
    (hcost : c.cost ≤ b.level.refilled l.rate l.burst c.now) :
    l.check c = (.ok (true, 0), (l.store c.key { b with
      tokens := b.level.refilled l.rate l.burst c.now - c.cost, lastRefill := c.now }).count c true) := by
  rw [check, hsome]
  exact if_pos hcost

theorem check_short {b : Bucket} (hsome : l.buckets c.key = some b)
    (hcost : ¬ c.cost ≤ b.level.refilled l.rate l.burst c.now) :
    l.check c =
      let l' := l.store c.key
        { b with tokens := b.level.refilled l.rate l.burst c.now, lastRefill := c.now }
      if l.rate = 0 then (.error "division by zero", l')
      else (.ok (false, (c.cost - b.level.refilled l.rate l.burst c.now) / l.rate),
        l'.count c false) := by
  rw [check, hsome]
  exact if_neg hcost

/-- A call on a bucket takes from it what the bucket has. -/
theorem check_bucket {b : Bucket} (hsome : l.buckets c.key = some b) :
    l.allows c = (b.level.take l.rate l.burst c.demand).1 ∧
      ∃ b', (l.check c).2.buckets c.key = some b' ∧
        b'.level = (b.level.take l.rate l.burst c.demand).2 := by
  have hupdate (b' : Option Bucket) : Function.update l.buckets c.key b' c.key = b' :=
    Function.update_self _ _ _
  rw [allows]
  by_cases hcost : c.cost ≤ b.level.refilled l.rate l.burst c.now
  · have htake : b.level.take l.rate l.burst c.demand =
        (true, ⟨b.level.refilled l.rate l.burst c.now - c.cost, c.now⟩) := if_pos hcost
    rw [check_met hsome hcost, htake]
    exact ⟨rfl, _, hupdate _, rfl⟩
  · have htake : b.level.take l.rate l.burst c.demand =
        (false, ⟨b.level.refilled l.rate l.burst c.now, c.now⟩) := if_neg hcost
    rw [check_short hsome hcost, htake]
    by_cases hzero : l.rate = 0
    · simp only [if_pos hzero]
      exact ⟨rfl, _, hupdate _, rfl⟩
    · simp only [if_neg hzero]
      exact ⟨rfl, _, hupdate _, rfl⟩

/-- The calls for the other keys do not count. -/
theorem admitted_bucket {b : Bucket} (hsome : l.buckets key = some b) :
    admitted key start stop l calls = b.level.spent l.rate l.burst start stop
      ((calls.filter fun c => c.key = key).map Check.demand) := by
  induction calls generalizing l b with
  | nil => rfl
  | cons c cs ih =>
      obtain ⟨hrate, hburst⟩ := check_limits l c
      by_cases hkey : c.key = key
      · subst hkey
        obtain ⟨hallows, b', hb', hlevel⟩ := check_bucket hsome
        rw [admitted, ih hb', hlevel, hrate, hburst, hallows, List.filter_cons_of_pos (by simp),
          List.map_cons, Level.spent]
        simp only [true_and]
        rfl
      · have hb' := (check_other hkey).trans hsome
        rw [admitted, if_neg fun h => hkey h.1, zero_add, ih hb', hrate, hburst,
          List.filter_cons_of_neg (by simpa using hkey)]

theorem demands_of_key (hcosts : ∀ c ∈ calls, 0 ≤ c.cost)
    (htimes : calls.Pairwise fun c c' => c.now ≤ c'.now) (key : String) :
    (∀ d ∈ (calls.filter fun c => c.key = key).map Check.demand, 0 ≤ d.cost) ∧
      ((calls.filter fun c => c.key = key).map Check.demand).Pairwise
        fun d d' => d.time ≤ d'.time := by
  refine ⟨fun d hd => ?_, List.pairwise_map.mpr (htimes.filter _)⟩
  obtain ⟨c, hc, rfl⟩ := List.mem_map.mp hd
  exact hcosts c (List.mem_filter.mp hc).1

/-- What a first call costs and what its bucket then gives. -/
theorem spent_first {rate burst cost now : Rat} {ds : List (Demand Rat)} (hrate : 0 ≤ rate)
    (hburst : 0 ≤ burst) (hnow : now ≤ stop) (hcosts : ∀ d ∈ ds, 0 ≤ d.cost)
    (hfrom : ∀ d ∈ ds, now ≤ d.time) (hsorted : ds.Pairwise fun d d' => d.time ≤ d'.time) :
    cost + Level.spent rate burst start stop ⟨max 0 (burst - cost), now⟩ ds ≤
      burst + (stop - now) * rate + max 0 (cost - burst) := by
  have htokens : 0 ≤ max 0 (burst - cost) := le_max_left _ _
  have hspent : Level.spent rate burst start stop ⟨max 0 (burst - cost), now⟩ ds ≤
      Level.refilled rate burst ⟨max 0 (burst - cost), now⟩ now + (stop - now) * rate :=
    Level.spent_le_refilled hrate hburst htokens le_rfl hnow hcosts hfrom hsorted
  have hlast : Level.refilled rate burst ⟨max 0 (burst - cost), now⟩ now ≤ max 0 (burst - cost) :=
    Level.refilled_last
  have hmax : max 0 (burst - cost) + cost = burst + max 0 (cost - burst) := by
    rw [max_add, zero_add, sub_add_cancel, add_max, add_zero, add_sub_cancel, max_comm]
  linarith

/-- The first call for a key is allowed at any cost; otherwise no more than the burst and what
flows in is admitted in any interval. -/
theorem admitted_new (hnone : l.buckets key = none) (hrate : 0 ≤ l.rate) (hburst : 0 ≤ l.burst)
    (hcosts : ∀ c ∈ calls, 0 ≤ c.cost) (htimes : calls.Pairwise fun c c' => c.now ≤ c'.now)
    (hstart : start ≤ stop) : admitted key start stop l calls ≤
      l.burst + (stop - start) * l.rate + firstExcess l.burst key start stop calls := by
  induction calls generalizing l with
  | nil =>
      rw [admitted, firstExcess, List.find?_nil, add_zero]
      exact add_nonneg hburst (mul_nonneg (sub_nonneg.mpr hstart) hrate)
  | cons c cs ih =>
      obtain ⟨hlater, htimes⟩ := List.pairwise_cons.mp htimes
      have hcosts' : ∀ x ∈ cs, 0 ≤ x.cost := fun x hx => hcosts x (List.mem_cons_of_mem _ hx)
      obtain ⟨hrate', hburst'⟩ := check_limits l c
      by_cases hkey : c.key = key
      · subst hkey
        obtain ⟨hpos, hsorted⟩ := demands_of_key hcosts' htimes c.key
        have hfrom : ∀ d ∈ (cs.filter fun x => x.key = c.key).map Check.demand, c.now ≤ d.time := by
          intro d hd
          obtain ⟨x, hx, rfl⟩ := List.mem_map.mp hd
          exact hlater x (List.mem_filter.mp hx).1
        rw [admitted, admitted_bucket (check_first hnone), hrate', hburst', allows_first hnone,
          firstExcess, List.find?_cons_of_pos (by simp)]
        simp only [true_and]
        by_cases hin : start ≤ c.now ∧ c.now ≤ stop
        · rw [if_pos hin, if_pos hin]
          have hmore := mul_le_mul_of_nonneg_right (sub_le_sub_left hin.1 stop) hrate
          refine (spent_first hrate hburst hin.2 hpos hfrom hsorted).trans ?_
          exact add_le_add (add_le_add le_rfl hmore) le_rfl
        · rw [if_neg hin, if_neg hin, zero_add, add_zero]
          exact Level.spent_le hrate hburst (le_max_left _ _) hstart hpos hfrom hsorted
      · have hsame : firstExcess l.burst key start stop (c :: cs) =
            firstExcess l.burst key start stop cs := by
          rw [firstExcess, List.find?_cons_of_neg (by simpa using hkey)]
          rfl
        rw [admitted, if_neg fun h => hkey h.1, zero_add, hsame]
        have hrest := ih ((check_other hkey).trans hnone) (hrate'.symm ▸ hrate)
          (hburst'.symm ▸ hburst) hcosts' htimes
        rwa [hrate', hburst'] at hrest

/-- What a call does to its key depends on the bucket of the key alone. -/
theorem check_congr {l' : RateLimiter} (hrate : l.rate = l'.rate) (hburst : l.burst = l'.burst)
    (hbucket : l.buckets c.key = l'.buckets c.key) : l.allows c = l'.allows c ∧
      (l.check c).2.buckets c.key = (l'.check c).2.buckets c.key := by
  cases hb : l.buckets c.key with
  | none =>
      rw [allows_first hb, allows_first (hbucket ▸ hb), check_first hb, check_first (hbucket ▸ hb),
        hburst]
      exact ⟨rfl, rfl⟩
  | some b =>
      have hb' : l'.buckets c.key = some b := hbucket ▸ hb
      have hupdate (m : RateLimiter) (b' : Bucket) : (m.store c.key b').buckets c.key = some b' :=
        Function.update_self _ _ _
      by_cases hcost : c.cost ≤ b.level.refilled l.rate l.burst c.now
      · have hcost' := hcost
        rw [hrate, hburst] at hcost'
        rw [allows, allows, check_met hb hcost, check_met hb' hcost', hrate, hburst]
        exact ⟨rfl, (hupdate _ _).trans (hupdate _ _).symm⟩
      · have hcost' := hcost
        rw [hrate, hburst] at hcost'
        rw [allows, allows, check_short hb hcost, check_short hb' hcost', hrate, hburst]
        by_cases hzero : l'.rate = 0
        · simp only [if_pos hzero]
          exact ⟨trivial, (hupdate _ _).trans (hupdate _ _).symm⟩
        · simp only [if_neg hzero]
          exact ⟨trivial, (hupdate _ _).trans (hupdate _ _).symm⟩

theorem admitted_filter {l' : RateLimiter} (hrate : l.rate = l'.rate) (hburst : l.burst = l'.burst)
    (hbucket : l.buckets key = l'.buckets key) : admitted key start stop l calls =
      admitted key start stop l' (calls.filter fun c => c.key = key) := by
  induction calls generalizing l l' with
  | nil => rfl
  | cons c cs ih =>
      obtain ⟨hr, hb⟩ := check_limits l c
      obtain ⟨hr', hb'⟩ := check_limits l' c
      by_cases hkey : c.key = key
      · subst hkey
        obtain ⟨hallows, hnext⟩ := check_congr hrate hburst hbucket
        rw [List.filter_cons_of_pos (by simp), admitted, admitted, hallows,
          ih (hr.trans (hrate.trans hr'.symm)) (hb.trans (hburst.trans hb'.symm)) hnext]
      · rw [List.filter_cons_of_neg (by simpa using hkey), admitted, if_neg fun h => hkey h.1,
          zero_add, ih (hr.trans hrate) (hb.trans hburst) ((check_other hkey).trans hbucket)]

theorem init_burst {rate burst : Rat} (hburst : 0 < burst) :
    (init rate (some burst)).burst = burst :=
  if_neg hburst.ne'

/-- In any interval a key is admitted no more than the burst and what flows in, and what its
first call costs beyond the burst; the calls for other keys do not matter. -/
theorem admitted_le {rate burst : Rat} (hrate : 0 < rate) (hburst : 0 < burst)
    {calls : List Check} (hcosts : ∀ c ∈ calls, 0 ≤ c.cost)
    (htimes : calls.Pairwise fun c c' => c.now ≤ c'.now) (key : String) (start : Rat) {T : Rat}
    (hT : 0 ≤ T) :
    admitted key start (start + T) (init rate (some burst)) calls ≤
        burst + rate * T + firstExcess burst key start (start + T) calls ∧
      admitted key start (start + T) (init rate (some burst)) calls =
        admitted key start (start + T) (init rate (some burst))
          (calls.filter fun c => c.key = key) := by
  refine ⟨?_, admitted_filter rfl rfl rfl⟩
  have hnew : admitted key start (start + T) (init rate (some burst)) calls ≤
      (init rate (some burst)).burst + (start + T - start) * rate +
        firstExcess (init rate (some burst)).burst key start (start + T) calls :=
    admitted_new rfl hrate.le ((init_burst hburst).symm ▸ hburst.le) hcosts htimes
      (le_add_of_nonneg_right hT)
  rwa [init_burst hburst, add_sub_cancel_left, mul_comm T] at hnew

/-- The first call empties the bucket; a second later there is one token again. -/
def sampleCalls : List Check := [⟨"a", 3, 0⟩, ⟨"b", 1, 1⟩, ⟨"a", 1, 1⟩, ⟨"a", 1, 1⟩]

theorem admitted_le_sample : admitted "a" 1 (1 + 1) (init 1 (some 2)) sampleCalls ≤
      2 + 1 * 1 + firstExcess 2 "a" 1 (1 + 1) sampleCalls ∧
    admitted "a" 1 (1 + 1) (init 1 (some 2)) sampleCalls =
      admitted "a" 1 (1 + 1) (init 1 (some 2)) (sampleCalls.filter fun c => c.key = "a") :=
  admitted_le (by decide) (by decide) (by decide +kernel) (by decide +kernel) "a" 1 (by decide)

/-- A first call that costs ten times the burst. -/
theorem not_admitted_le : ¬ ∀ (rate burst : Rat) (calls : List Check) (key : String)
    (start T : Rat), 0 < rate → 0 < burst → (∀ c ∈ calls, 0 ≤ c.cost) →
    (calls.Pairwise fun c c' => c.now ≤ c'.now) → 0 ≤ T →
    admitted key start (start + T) (init rate (some burst)) calls ≤ burst + rate * T := by
  intro h
  have hten := h 1 1 [⟨"a", 10, 0⟩] "a" 0 0 (by decide) (by decide) (by decide)
    (List.pairwise_singleton _ _) le_rfl
  revert hten
  decide +kernel

/-- A denied call has a bucket that is too low, and waits for what is missing. -/
theorem denied_cases {wait : Rat} (hdenied : (l.check c).1 = .ok (false, wait)) :
    l.rate ≠ 0 ∧ ∃ b : Bucket, (l.check c).2.buckets c.key = some b ∧ b.lastRefill = c.now ∧
      b.tokens ≤ l.burst ∧ b.tokens < c.cost ∧ wait = (c.cost - b.tokens) / l.rate := by
  cases hb : l.buckets c.key with
  | none =>
      rw [check, hb] at hdenied
      cases hdenied
  | some b =>
      by_cases hcost : c.cost ≤ b.level.refilled l.rate l.burst c.now
      · rw [check_met hb hcost] at hdenied
        cases hdenied
      · rw [check_short hb hcost] at hdenied ⊢
        by_cases hzero : l.rate = 0
        · simp only [if_pos hzero] at hdenied
          cases hdenied
        · simp only [if_neg hzero] at hdenied ⊢
          cases hdenied
          exact ⟨hzero, _, Function.update_self _ _ _, rfl, Level.refilled_le_burst _,
            not_le.mp hcost, rfl⟩

theorem run_others {others : List Check} (hothers : ∀ c ∈ others, c.key ≠ key) :
    (l.run others).rate = l.rate ∧ (l.run others).burst = l.burst ∧
      (l.run others).buckets key = l.buckets key := by
  induction others generalizing l with
  | nil => exact ⟨rfl, rfl, rfl⟩
  | cons c cs ih =>
      obtain ⟨hrate, hburst⟩ := check_limits l c
      obtain ⟨hr, hb, hbucket⟩ := ih (l := (l.check c).2) fun x hx => hothers x (List.mem_cons_of_mem _ hx)
      exact ⟨hr.trans hrate, hb.trans hburst,
        hbucket.trans (check_other (hothers c List.mem_cons_self))⟩

theorem allows_iff {b : Bucket} (hb : l.buckets c.key = some b) :
    l.allows c = true ↔ c.cost ≤ b.level.refilled l.rate l.burst c.now := by
  rw [(check_bucket hb).1, Level.take]
  split
  case isTrue h => exact iff_of_true rfl h
  case isFalse h => exact iff_of_false Bool.false_ne_true h

theorem allows_after {others : List Check} (hothers : ∀ o ∈ others, o.key ≠ c.key) {b : Bucket}
    (hb : (l.check c).2.buckets c.key = some b) (time : Rat) :
    ((l.check c).2.run others).allows { c with now := time } = true ↔
      c.cost ≤ b.level.refilled l.rate l.burst time := by
  obtain ⟨hrate, hburst⟩ := check_limits l c
  obtain ⟨hr, hbu, hbucket⟩ := run_others (l := (l.check c).2) hothers
  have hiff := allows_iff (c := { c with now := time }) (hbucket.trans hb)
  rwa [hr, hbu, hrate, hburst] at hiff

/-- Other keys' calls do not change when a denied call is allowed. -/
theorem allows_when {wait : Rat} {others : List Check}
    (hdenied : (l.check c).1 = .ok (false, wait)) (hcost : c.cost ≤ l.burst) (hpos : 0 < l.rate)
    (hothers : ∀ o ∈ others, o.key ≠ c.key) (time : Rat) :
    ((l.check c).2.run others).allows { c with now := time } = true ↔ c.now + wait ≤ time := by
  obtain ⟨-, b, hb, hlast, -, -, rfl⟩ := denied_cases hdenied
  rw [allows_after hothers hb, Level.le_refilled_iff hpos hcost]
  change b.lastRefill + (c.cost - b.tokens) / l.rate ≤ time ↔ _
  rw [hlast]

/-- The wait that a denied call is told is exact when the bucket can hold its cost. -/
theorem wait_exact_iff {wait : Rat} (hdenied : (l.check c).1 = .ok (false, wait)) :
    (∀ others : List Check, (∀ o ∈ others, o.key ≠ c.key) → ∀ time, c.now ≤ time →
      (((l.check c).2.run others).allows { c with now := time } = true ↔ c.now + wait ≤ time)) ↔
      c.cost ≤ l.burst ∧ 0 < l.rate := by
  constructor
  · intro h
    obtain ⟨hzero, b, hb, hlast, hle, hlt, rfl⟩ := denied_cases hdenied
    have hnow := h [] (fun o ho => absurd ho List.not_mem_nil)
    by_cases hpos : 0 < l.rate
    · refine ⟨?_, hpos⟩
      have hwait : 0 ≤ (c.cost - b.tokens) / l.rate := div_nonneg (sub_nonneg.mpr hlt.le) hpos.le
      have hmet := (hnow _ (le_add_of_nonneg_right hwait)).mpr le_rfl
      rw [allows_after (fun o ho => absurd ho List.not_mem_nil) hb] at hmet
      exact hmet.trans (Level.refilled_le_burst _)
    · -- with a negative rate the wait is over before the call
      have hneg : (c.cost - b.tokens) / l.rate ≤ 0 :=
        div_nonpos_of_nonneg_of_nonpos (sub_nonneg.mpr hlt.le) (not_lt.mp hpos)
      have hmet := (hnow c.now le_rfl).mpr (add_le_of_nonpos_right hneg)
      rw [allows_after (fun o ho => absurd ho List.not_mem_nil) hb, ← hlast] at hmet
      exact absurd (hmet.trans Level.refilled_last) (not_le.mpr hlt)
  · rintro ⟨hcost, hpos⟩ others hothers time -
    exact allows_when hdenied hcost hpos hothers time

/-- The bucket of one token is empty. -/
def emptied : RateLimiter := (init 1 (some 1)).run [⟨"a", 1, 0⟩]

theorem wait_exact_emptied :
    (emptied.check ⟨"a", 1, 0⟩).1 = .ok (false, 1) ∧
      ∀ others : List Check, (∀ o ∈ others, o.key ≠ "a") → ∀ time, 0 ≤ time →
        (((emptied.check ⟨"a", 1, 0⟩).2.run others).allows ⟨"a", 1, time⟩ = true ↔
          0 + 1 ≤ time) := by
  have hdenied : (emptied.check ⟨"a", 1, 0⟩).1 = .ok (false, 1) := by decide +kernel
  exact ⟨hdenied, (wait_exact_iff hdenied).mpr (by decide +kernel)⟩

/-- A request for ten tokens is told to wait ten seconds for a bucket that holds one. -/
theorem not_wait_exact : ¬ ∀ (rate burst : Rat) (calls : List Check) (c : Check) (wait : Rat),
    (((init rate (some burst)).run calls).check c).1 = .ok (false, wait) →
      ∀ time, c.now + wait ≤ time →
        (((init rate (some burst)).run calls).check c).2.allows { c with now := time } = true := by
  intro h
  have hten := h 1 1 [⟨"a", 1, 0⟩] ⟨"a", 10, 0⟩ 10 (by decide +kernel) 10
    (by decide +kernel)
  revert hten
  decide +kernel

/-- The header Retry-After: int(wait) + 1 -/
def retryAfter (wait : Rat) : Int := (if 0 ≤ wait then ⌊wait⌋ else ⌈wait⌉) + 1

/-- A client that comes back after Retry-After seconds is not denied again. -/
theorem retryAfter_allowed {wait : Rat} (hdenied : (l.check c).1 = .ok (false, wait))
    (hcost : c.cost ≤ l.burst) (hrate : 0 < l.rate) :
    (l.check c).2.allows { c with now := c.now + retryAfter wait } = true := by
  obtain ⟨-, b, -, -, -, hlt, hwait⟩ := denied_cases hdenied
  have hpos : 0 ≤ wait := hwait ▸ div_nonneg (sub_nonneg.mpr hlt.le) hrate.le
  have hle : wait ≤ retryAfter wait := by
    rw [retryAfter, if_pos hpos, Int.cast_add, Int.cast_one]
    exact (Int.lt_floor_add_one wait).le
  have hexact := allows_when hdenied hcost hrate (List.forall_mem_nil _) (c.now + retryAfter wait)
  exact hexact.mpr ((add_le_add_iff_left _).mpr hle)

end RateLimiter

structure AuthRateLimiter where
  auth : AuthManager
  limiter : RateLimiter

/-- A call of check_request; the keys expire by the clock of the day. -/
structure KeyRequest where
  apiKey : String
  cost : Rat := 1
  now : Int
  time : Rat
  deriving DecidableEq, Repr

structure RequestResult where
  allowed : Bool := false
  status : String := "auth_error"
  authResult : AuthResult
  wait : Rat := 0
  error : Option String := none
  deriving DecidableEq, Repr

namespace AuthRateLimiter

variable (d : Directories) (hash : String → String) (tenths : Rat → String)

/-- What a request with a valid key is told. -/
def answer (authResult : AuthResult) : Except String (Bool × Rat) → Option RequestResult
  | .error _ => none
  | .ok (true, _) => some { allowed := true, status := "ok", authResult := authResult }
  | .ok (false, wait) =>
      some
        { status := "rate_limited"
          authResult := authResult
          wait := wait
          error := some ("Rate limited. Wait " ++ tenths wait ++ "s") }

/-- check_request; no result is an exception. -/
def checkRequest (a : AuthRateLimiter) (r : KeyRequest) : Option RequestResult × AuthRateLimiter :=
  match a.auth.validateKey d hash r.apiKey r.now with
  | (auth, none) => (none, { a with auth := auth })
  | (auth, some authResult) =>
    if authResult.valid then
      let checked := a.limiter.check ⟨authResult.keyId, r.cost, r.time⟩
      (answer tenths authResult checked.1, ⟨auth, checked.2⟩)
    else
      (some { authResult := authResult, error := some authResult.error }, { a with auth := auth })

/-- The calls of check that the requests come to. -/
def checks : AuthRateLimiter → List KeyRequest → List Check
  | _, [] => []
  | a, r :: rs =>
    match (a.auth.validateKey d hash r.apiKey r.now).2 with
    | some authResult =>
        if authResult.valid then
          ⟨authResult.keyId, r.cost, r.time⟩ :: checks (a.checkRequest d hash tenths r).2 rs
        else checks (a.checkRequest d hash tenths r).2 rs
    | none => checks (a.checkRequest d hash tenths r).2 rs

/-- What the requests of a key that were allowed between two times cost. -/
def admitted (keyId : String) (start stop : Rat) : AuthRateLimiter → List KeyRequest → Rat
  | _, [] => 0
  | a, r :: rs =>
      (if (∃ result ∈ (a.checkRequest d hash tenths r).1,
          result.allowed = true ∧ result.authResult.keyId = keyId) ∧ start ≤ r.time ∧ r.time ≤ stop
        then r.cost else 0) + admitted keyId start stop (a.checkRequest d hash tenths r).2 rs

theorem exists_answer_iff {authResult : AuthResult} {o : Except String (Bool × Rat)}
    {keyId : String} : (∃ result ∈ answer tenths authResult o,
      result.allowed = true ∧ result.authResult.keyId = keyId) ↔
      authResult.keyId = keyId ∧ RateLimiter.granted o = true := by
  obtain e | ⟨allowed, wait⟩ := o
  · simp [answer, RateLimiter.granted]
  · cases allowed <;> simp [answer, RateLimiter.granted]

/-- The limiter decides on the requests with a valid key and sees no other. -/
theorem admitted_eq_checks (keyId : String) (start stop : Rat) (a : AuthRateLimiter)
    (rs : List KeyRequest) : a.admitted d hash tenths keyId start stop rs =
      a.limiter.admitted keyId start stop (a.checks d hash tenths rs) := by
  induction rs generalizing a with
  | nil => rfl
  | cons r rs ih =>
      rw [admitted, checks]
      cases hvalid : a.auth.validateKey d hash r.apiKey r.now with
      | mk auth result =>
          have hunseen (o : Option RequestResult) (ho : ∀ x ∈ o, x.allowed = false)
              (hcheck : a.checkRequest d hash tenths r = (o, { a with auth := auth })) :
              (if (∃ result ∈ (a.checkRequest d hash tenths r).1,
                  result.allowed = true ∧ result.authResult.keyId = keyId) ∧
                  start ≤ r.time ∧ r.time ≤ stop then r.cost else 0) +
                (a.checkRequest d hash tenths r).2.admitted d hash tenths keyId start stop rs =
              a.limiter.admitted keyId start stop
                ((a.checkRequest d hash tenths r).2.checks d hash tenths rs) := by
            rw [hcheck, if_neg ?_, zero_add, ih]
            rintro ⟨⟨x, hx, hallowed, -⟩, -⟩
            rw [ho x hx] at hallowed
            cases hallowed
          cases result with
          | none => exact hunseen none (by simp) (by rw [checkRequest, hvalid])
          | some authResult =>
              simp only
              cases hauth : authResult.valid with
              | false =>
                  rw [if_neg Bool.false_ne_true]
                  refine hunseen (some { authResult := authResult, error := some authResult.error })
                    (by simp) ?_
                  rw [checkRequest, hvalid]
                  simp only [hauth, if_neg Bool.false_ne_true]
              | true =>
                  have hcheck : a.checkRequest d hash tenths r =
                      (answer tenths authResult
                          (a.limiter.check ⟨authResult.keyId, r.cost, r.time⟩).1,
                        ⟨auth, (a.limiter.check ⟨authResult.keyId, r.cost, r.time⟩).2⟩) := by
                    rw [checkRequest, hvalid]
                    exact if_pos hauth
                  rw [if_pos rfl, RateLimiter.admitted, ih, hcheck]
                  simp only [exists_answer_iff, and_assoc]
                  rfl

end AuthRateLimiter

end Prodinamik.Access
