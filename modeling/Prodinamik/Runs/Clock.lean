import Mathlib.Data.String.Basic
import Prodinamik.Lib.Rounding

namespace Prodinamik.Runs

open Lib.Decimal

/-- A value of datetime.now(), as far as its printed forms tell it from
others. -/
structure DateTime where
  year : Nat
  month : Nat
  day : Nat
  hour : Nat
  minute : Nat
  second : Nat
  microsecond : Nat
  year_low : 1000 ≤ year := by decide
  year_high : year < 10000 := by decide
  month_high : month < 13 := by decide
  day_high : day < 32 := by decide
  hour_high : hour < 24 := by decide
  minute_high : minute < 60 := by decide
  second_high : second < 60 := by decide
  microsecond_high : microsecond < 1000000 := by decide
  deriving DecidableEq

/-- Some time: the second of the second month of a year, a little after two. -/
instance : Inhabited DateTime :=
  ⟨{ year := 2002, month := 2, day := 2, hour := 2, minute := 2, second := 2, microsecond := 2 }⟩

namespace DateTime

def atMinute (t : DateTime) (n : Nat) : DateTime :=
  { t with
    minute := n % 60
    minute_high := Nat.mod_lt n (Nat.zero_lt_succ 59) }

def ticks (t : DateTime) : Nat :=
  (((((t.year * 100 + t.month) * 100 + t.day) * 100 + t.hour) * 100 + t.minute) * 100 + t.second) *
    1000000 + t.microsecond

def clock (t : DateTime) : List Char :=
  pad 2 t.hour ++ ':' :: (pad 2 t.minute ++ ':' :: pad 2 t.second)

/-- The first 19 characters of isoformat. -/
def isoSeconds (t : DateTime) : List Char :=
  pad 4 t.year ++ '-' :: (pad 2 t.month ++ '-' :: (pad 2 t.day ++ 'T' :: t.clock))

/-- The fraction is left out when it is zero. -/
def fraction (t : DateTime) : List Char :=
  if t.microsecond = 0 then [] else '.' :: pad 6 t.microsecond

def isoformat (t : DateTime) : String := String.ofList (t.isoSeconds ++ t.fraction)

def utcOffset : List Char := ['+', '0', '0', ':', '0', '0']

/-- isoformat of a time with the zone UTC. -/
def utcIsoformat (t : DateTime) : String :=
  String.ofList (t.isoSeconds ++ (t.fraction ++ utcOffset))

/-- strftime('%Y%m%d') and strftime('%H%M%S'). -/
def compactDate (t : DateTime) : List Char := pad 4 t.year ++ (pad 2 t.month ++ pad 2 t.day)

def compactTime (t : DateTime) : List Char := pad 2 t.hour ++ (pad 2 t.minute ++ pad 2 t.second)

/-- wal_%Y%m%d_%H%M%S_%f.log -/
def walName (t : DateTime) : String :=
  String.ofList ("wal_".toList ++ (t.compactDate ++ '_' :: (t.compactTime ++
    '_' :: (pad 6 t.microsecond ++ ".log".toList))))

theorem walName_toList (t : DateTime) : t.walName.toList =
    "wal_".toList ++ (t.compactDate ++ '_' :: (t.compactTime ++
      '_' :: (pad 6 t.microsecond ++ ".log".toList))) := String.toList_ofList

theorem isoformat_toList (t : DateTime) : t.isoformat.toList = t.isoSeconds ++ t.fraction :=
  String.toList_ofList

section Bounds

variable (t : DateTime)

theorem year_lt : t.year < 10 ^ 4 := t.year_high
theorem month_lt : t.month < 10 ^ 2 := lt_trans t.month_high (by decide)
theorem day_lt : t.day < 10 ^ 2 := lt_trans t.day_high (by decide)
theorem hour_lt : t.hour < 10 ^ 2 := lt_trans t.hour_high (by decide)
theorem minute_lt : t.minute < 10 ^ 2 := lt_trans t.minute_high (by decide)
theorem second_lt : t.second < 10 ^ 2 := lt_trans t.second_high (by decide)
theorem microsecond_lt : t.microsecond < 10 ^ 6 := t.microsecond_high

end Bounds

/-- The numbers of a time compared one after the other. -/
def Before (a b : DateTime) (rest : Prop) : Prop :=
  a.year < b.year ∨ a.year = b.year ∧ (a.month < b.month ∨ a.month = b.month ∧
    (a.day < b.day ∨ a.day = b.day ∧ (a.hour < b.hour ∨ a.hour = b.hour ∧
      (a.minute < b.minute ∨ a.minute = b.minute ∧ (a.second < b.second ∨ a.second = b.second ∧
        rest)))))

theorem before_iff (a b : DateTime) :
    Before a b (a.microsecond < b.microsecond) ↔ a.ticks < b.ticks := by
  have := a.month_lt; have := a.day_lt; have := a.hour_lt; have := a.minute_lt
  have := a.second_lt; have := a.microsecond_lt
  have := b.month_lt; have := b.day_lt; have := b.hour_lt; have := b.minute_lt
  have := b.second_lt; have := b.microsecond_lt
  rw [Before, ticks, ticks]
  omega

/-- WAL files sort by the time they were written. -/
theorem walName_lt (a b : DateTime) : a.walName < b.walName ↔ a.ticks < b.ticks := by
  have htail : pad 6 a.microsecond ++ ".log".toList < pad 6 b.microsecond ++ ".log".toList ↔
      a.microsecond < b.microsecond := by
    rw [pad_append_lt a.microsecond_lt b.microsecond_lt, or_iff_left]
    exact fun h => lt_irrefl _ h.2
  rw [String.lt_iff_toList_lt, walName_toList, walName_toList, append_lt_append_left, compactDate, compactDate, compactTime, compactTime]
  simp only [List.append_assoc]
  rw [pad_append_lt a.year_lt b.year_lt, pad_append_lt a.month_lt b.month_lt,
    pad_append_lt a.day_lt b.day_lt, cons_lt_cons_self, pad_append_lt a.hour_lt b.hour_lt,
    pad_append_lt a.minute_lt b.minute_lt, pad_append_lt a.second_lt b.second_lt,
    cons_lt_cons_self, htail]
  exact before_iff a b

theorem fraction_lt (a b : DateTime) : a.fraction < b.fraction ↔ a.microsecond < b.microsecond := by
  rw [fraction, fraction]
  by_cases hb : b.microsecond = 0
  · rw [if_pos hb, hb]
    simp
  · rw [if_neg hb]
    by_cases ha : a.microsecond = 0
    · rw [if_pos ha, ha]
      simp [Nat.pos_of_ne_zero hb]
    · have h := pad_append_lt a.microsecond_lt b.microsecond_lt [] []
      rw [List.append_nil, List.append_nil] at h
      rw [if_neg ha, cons_lt_cons_self, h, or_iff_left]
      exact fun hc => lt_irrefl _ hc.2

/-- The seconds come first, and then what stands behind them. -/
theorem isoSeconds_append_lt (a b : DateTime) (s t : List Char) :
    a.isoSeconds ++ s < b.isoSeconds ++ t ↔ Before a b (s < t) := by
  rw [isoSeconds, isoSeconds, clock, clock]
  simp only [List.append_assoc, List.cons_append]
  rw [pad_append_lt a.year_lt b.year_lt, cons_lt_cons_self, pad_append_lt a.month_lt b.month_lt,
    cons_lt_cons_self, pad_append_lt a.day_lt b.day_lt, cons_lt_cons_self,
    pad_append_lt a.hour_lt b.hour_lt, cons_lt_cons_self, pad_append_lt a.minute_lt b.minute_lt,
    cons_lt_cons_self, pad_append_lt a.second_lt b.second_lt]
  rfl

theorem isoformat_lt (a b : DateTime) : a.isoformat < b.isoformat ↔ a.ticks < b.ticks := by
  rw [String.lt_iff_toList_lt, isoformat_toList, isoformat_toList, isoSeconds_append_lt, fraction_lt]
  exact before_iff a b

theorem fraction_utc_lt (a b : DateTime) :
    a.fraction ++ utcOffset < b.fraction ++ utcOffset ↔
      a.microsecond < b.microsecond := by
  rw [fraction, fraction]
  by_cases ha : a.microsecond = 0
  · by_cases hb : b.microsecond = 0
    · simp [ha, hb]
    · rw [if_pos ha, if_neg hb, ha]
      exact iff_of_true (List.cons_lt_cons_iff.mpr (Or.inl (by decide))) (Nat.pos_of_ne_zero hb)
  · by_cases hb : b.microsecond = 0
    · rw [if_neg ha, if_pos hb, hb]
      refine iff_of_false ?_ (Nat.not_lt_zero _)
      rw [List.nil_append, List.cons_append, utcOffset, List.cons_lt_cons_iff]
      simp
    · rw [if_neg ha, if_neg hb, List.cons_append, List.cons_append, cons_lt_cons_self,
        pad_append_lt a.microsecond_lt b.microsecond_lt, or_iff_left]
      exact fun h => lt_irrefl _ h.2

theorem utcIsoformat_lt (a b : DateTime) : a.utcIsoformat < b.utcIsoformat ↔ a.ticks < b.ticks := by
  rw [String.lt_iff_toList_lt, utcIsoformat, utcIsoformat, String.toList_ofList,
    String.toList_ofList, isoSeconds_append_lt, fraction_utc_lt]
  exact before_iff a b

end DateTime

end Prodinamik.Runs
