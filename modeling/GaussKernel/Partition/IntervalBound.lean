import GaussKernel.Partition.PartitionMap
import Mathlib.Algebra.Order.Ring.Int

/-!
# The lower bound of an interval partition

An interval partition stores its upper bound only. Its lower bound is that bound minus the interval of the table, in
calendar arithmetic (`timestamp_mi_interval`, `CalcLowBoundary`). Timestamps are microseconds since the start of the
year 2000, dates are days since then. The time of day passes through the conversions unchanged, so `Tm` keeps it as a
number of microseconds.
-/

namespace GaussKernel.Partition

abbrev DATEOID : Nat := 1082

abbrev USECS_PER_DAY : Int := 86400000000

abbrev POSTGRES_EPOCH_JDATE : Int := 2451545

/-- The numbers of an `int64`. -/
def inInt64 (n : Int) : Bool := -2 ^ 63 ≤ n && n < 2 ^ 63

abbrev DT_NOBEGIN : Int := -2 ^ 63

abbrev DT_NOEND : Int := 2 ^ 63 - 1

abbrev DATEVAL_NOBEGIN : Int := -2 ^ 31

abbrev DATEVAL_NOEND : Int := 2 ^ 31 - 1

structure Tm where
  tm_year : Int
  tm_mon : Int
  tm_mday : Int
  time : Int

def timestampOutOfRange : ErrorData := ⟨.datetimeValueOutOfRange, "timestamp out of range"⟩

def isleap (y : Int) : Bool := y.tmod 4 == 0 && (y.tmod 100 != 0 || y.tmod 400 == 0)

/-- The days of a month, from 1 for January. -/
def day_tab (leap : Bool) (m : Int) : Int :=
  ([31, if leap then 29 else 28, 31, 30, 31, 30, 31, 31, 30, 31, 30, 31][(m - 1).toNat]?).getD 0

def date2j (y m d : Int) : Int :=
  let (y, m) := if m > 2 then (y + 4800, m + 1) else (y + 4799, m + 13)
  let century := y.tdiv 100
  y * 365 - 32167 + (y.tdiv 4 - century + century.tdiv 4) + ((7834 * m).tdiv 256 + d)

/-- The date of a Julian day, in unsigned arithmetic. -/
def j2date (jd : Int) (time : Int) : Tm :=
  let julian : Nat := ((jd + 32044) % 2 ^ 32).toNat
  let quad := julian / 146097
  let extra := (julian - quad * 146097) * 4 + 3
  let julian : Nat := (julian + (60 + quad * 3 + extra / 146097)) % 2 ^ 32
  let quad := julian / 1461
  let julian := julian - quad * 1461
  let y := julian * 4 / 1461
  let julian := (if y ≠ 0 then (julian + 305) % 365 else (julian + 306) % 366) + 123
  let y := y + quad * 4
  let quad := julian * 2141 / 65536
  { tm_year := (y : Int) - 4800
    tm_mon := (quad + 10) % 12 + 1
    tm_mday := (julian : Int) - (7834 * quad / 256 : Nat)
    time }

def timestamp2tm (dt : Int) : Option Tm :=
  let date := dt / USECS_PER_DAY + POSTGRES_EPOCH_JDATE
  if date < 0 || date > 2 ^ 31 - 1 then none else some (j2date date (dt % USECS_PER_DAY))

def IS_VALID_JULIAN (y m d : Int) : Bool :=
  (y > -4713 || (y == -4713 && (m > 11 || (m == 11 && d ≥ 24)))) && y < 5874898

def tm2timestamp (tm : Tm) : Option Int :=
  if IS_VALID_JULIAN tm.tm_year tm.tm_mon tm.tm_mday then
    let result := (date2j tm.tm_year tm.tm_mon tm.tm_mday - POSTGRES_EPOCH_JDATE) * USECS_PER_DAY + tm.time
    if inInt64 result then some result else none
  else none

/-- `month` months later, on the last day of the month where the day does not exist. -/
def addMonths (tm : Tm) (month : Int) : Tm :=
  let mon := tm.tm_mon + month
  let (year, mon) :=
    if mon > 12 then (tm.tm_year + (mon - 1).tdiv 12, (mon - 1).tmod 12 + 1)
    else if mon < 1 then (tm.tm_year + (mon.tdiv 12 - 1), mon.tmod 12 + 12)
    else (tm.tm_year, mon)
  let last := day_tab (isleap year) mon
  { tm with tm_year := year, tm_mon := mon, tm_mday := if tm.tm_mday > last then last else tm.tm_mday }

/-- `day` days later. -/
def addDays (tm : Tm) (day : Int) : Tm :=
  j2date (date2j tm.tm_year tm.tm_mon tm.tm_mday + day) tm.time

/-- The timestamp moved by `move` in the calendar, unless the field of the interval is zero. -/
def moveTimestamp (timestamp field : Int) (move : Tm → Int → Tm) : Except ErrorData Int :=
  if field = 0 then .ok timestamp
  else
    match timestamp2tm timestamp with
    | none => .error timestampOutOfRange
    | some tm =>
      match tm2timestamp (move tm field) with
      | none => .error timestampOutOfRange
      | some timestamp => .ok timestamp

def timestamp_pl_interval (timestamp : Int) (span : Interval) : Except ErrorData Int :=
  if timestamp = DT_NOBEGIN || timestamp = DT_NOEND then .ok timestamp
  else do
    let timestamp ← moveTimestamp timestamp span.month addMonths
    let timestamp ← moveTimestamp timestamp span.day addDays
    return (timestamp + span.time).bmod (2 ^ 64)

def timestamp_mi_interval (timestamp : Int) (span : Interval) : Except ErrorData Int :=
  timestamp_pl_interval timestamp ⟨-span.time, -span.day, -span.month⟩

def date2timestamp (dateVal : Int) : Except ErrorData Int :=
  if dateVal = DATEVAL_NOBEGIN then .ok DT_NOBEGIN
  else if dateVal = DATEVAL_NOEND then .ok DT_NOEND
  else if inInt64 (dateVal * USECS_PER_DAY) then .ok (dateVal * USECS_PER_DAY)
  else .error ⟨.datetimeValueOutOfRange, "date out of range for timestamp"⟩

def timestamp2date (timestamp : Int) : Except ErrorData Int :=
  if timestamp = DT_NOBEGIN then .ok DATEVAL_NOBEGIN
  else if timestamp = DT_NOEND then .ok DATEVAL_NOEND
  else
    match timestamp2tm timestamp with
    | none => .error timestampOutOfRange
    | some tm => .ok (date2j tm.tm_year tm.tm_mon tm.tm_mday - POSTGRES_EPOCH_JDATE)

/-- The value of `CalcLowBoundary`, for an upper bound that is a date or a timestamp. -/
def dateTimeLowValue (consttype : Nat) (constvalue : Int) (intervalValue : Interval) : Except ErrorData Int :=
  if consttype = DATEOID then do
    let timestamp ← date2timestamp constvalue
    let lowTs ← timestamp_mi_interval timestamp intervalValue
    timestamp2date lowTs
  else timestamp_mi_interval constvalue intervalValue

/-- One month before the first of March 2024 is the first of February, 29 days earlier. -/
example : dateTimeLowValue DATEOID 8826 ⟨0, 0, 1⟩ = .ok (8826 - 29) := by decide

end GaussKernel.Partition
