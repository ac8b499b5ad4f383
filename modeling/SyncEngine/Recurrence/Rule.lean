import Mathlib
import SyncEngine.Library.Civil

/-!
# Expanding one recurrence rule

The dates a rule gives from a start on, up to the end of a window.  They are the dates instances are
known by; times of day, overrides and exclusions come later.

Each generator goes from period to period and emits the dates the rule selects in each.  A round moves on
by a day at least, so as many rounds as there are days up to the bound are enough.
-/

namespace SyncEngine
namespace Recurrence

/-!
## Civil dates

A date of the years -9999 to 9999, without a time or a zone.  It is ordered as the days are numbered.
-/

open Civil

inductive Weekday
  | mo | tu | we | th | fr | sa | su
deriving DecidableEq, Repr

namespace Weekday

/-- The days from Monday on. -/
def offset : Weekday → Nat
  | mo => 0
  | tu => 1
  | we => 2
  | th => 3
  | fr => 4
  | sa => 5
  | su => 6

def ofOffset : Nat → Weekday
  | 0 => mo
  | 1 => tu
  | 2 => we
  | 3 => th
  | 4 => fr
  | 5 => sa
  | _ => su

theorem offset_lt (w : Weekday) : w.offset < 7 := by
  cases w <;> decide

theorem ofOffset_eq_iff {n : Nat} (h : n < 7) {w : Weekday} : ofOffset n = w ↔ n = w.offset := by
  interval_cases n <;> cases w <;> decide

end Weekday

structure Date where
  year : Int
  month : Nat
  day : Nat
  inRange : -9999 ≤ year ∧ year ≤ 9999
  isDate : IsDate year month day
deriving DecidableEq

namespace Date

def number (d : Date) : Int := dayNumber d.year d.month d.day

theorem number_injective : Function.Injective number := by
  intro a b h
  obtain ⟨hyear, hmonth, hday⟩ := dayNumber_inj a.isDate b.isDate h
  cases a
  cases b
  simp only at hyear hmonth hday
  subst hyear hmonth hday
  rfl

instance : LinearOrder Date := LinearOrder.lift' number number_injective

theorem le_def {a b : Date} : a ≤ b ↔ a.number ≤ b.number := Iff.rfl

theorem lt_def {a b : Date} : a < b ↔ a.number < b.number := Iff.rfl

/-- The date with these parts, where there is one. -/
def new? (year : Int) (month day : Nat) : Option Date :=
  if h : (-9999 ≤ year ∧ year ≤ 9999) ∧ IsDate year month day then
    some ⟨year, month, day, h.1, h.2⟩
  else none

theorem new?_eq_some_iff {year : Int} {month day : Nat} {d : Date} :
    new? year month day = some d ↔ d.year = year ∧ d.month = month ∧ d.day = day := by
  unfold new?
  constructor
  · intro h
    split at h
    · rw [← Option.some.inj h]
      exact ⟨rfl, rfl, rfl⟩
    · exact nomatch h
  · rintro ⟨rfl, rfl, rfl⟩
    rw [dif_pos ⟨d.inRange, d.isDate⟩]

def ofNumber? (n : Int) : Option Date :=
  new? (civilOf n).1 (civilOf n).2.1 (civilOf n).2.2

theorem ofNumber?_eq_some_iff {n : Int} {d : Date} : ofNumber? n = some d ↔ d.number = n := by
  obtain ⟨hdate, hnumber⟩ := civilOf_spec n
  unfold ofNumber?
  rw [new?_eq_some_iff]
  constructor
  · rintro ⟨hyear, hmonth, hday⟩
    rw [number, hyear, hmonth, hday, hnumber]
  · intro h
    exact dayNumber_inj d.isDate hdate (h.trans hnumber.symm)

def addDays? (d : Date) (days : Int) : Option Date := ofNumber? (d.number + days)

theorem addDays?_eq_some_iff {d e : Date} {days : Int} : d.addDays? days = some e ↔ e.number = d.number + days :=
  ofNumber?_eq_some_iff

def daysInMonth (d : Date) : Nat := monthLength d.year d.month

/-- 1 January of the year 0 was a Saturday. -/
def weekday (d : Date) : Weekday := .ofOffset ((d.number + 5) % 7).toNat

theorem weekday_eq_iff {d : Date} {w : Weekday} : d.weekday = w ↔ (d.number + 5) % 7 = w.offset := by
  unfold weekday
  rw [Weekday.ofOffset_eq_iff (by omega)]
  omega

/-- The `nth` day of the month with a weekday, counted from the month's end when negative. -/
def nthWeekdayOfMonth? (d : Date) (nth : Int) (weekday : Weekday) : Option Date :=
  let first := dayNumber d.year d.month 1
  let last := dayNumber d.year d.month d.daysInMonth
  if 0 < nth then
    let day := 1 + (weekday.offset - (first + 5)) % 7 + 7 * (nth - 1)
    new? d.year d.month day.toNat
  else
    let day := d.daysInMonth - (last + 5 - weekday.offset) % 7 - 7 * (-nth - 1)
    if nth < 0 && 0 < day then new? d.year d.month day.toNat else none

/-! ## Months -/

def monthIndex (d : Date) : Int := 12 * d.year + (d.month - 1)

end Date

def monthStart (i : Int) : Int := dayNumber (i / 12) (i % 12 + 1).toNat 1

theorem monthStart_of {year : Int} {month : Nat} (h₁ : 1 ≤ month) (h₂ : month ≤ 12) :
    monthStart (12 * year + (month - 1)) = dayNumber year month 1 := by
  unfold monthStart
  have hyear : (12 * year + ((month : Int) - 1)) / 12 = year := by omega
  have hmonth : ((12 * year + ((month : Int) - 1)) % 12 + 1).toNat = month := by omega
  rw [hyear, hmonth]

theorem monthStart_succ (i : Int) : monthStart (i + 1) = monthStart i + monthLength (i / 12) (i % 12 + 1).toNat := by
  have hsucc := beforeMonth_succ (i / 12) (show 1 ≤ (i % 12 + 1).toNat by omega) (by omega)
  by_cases hlast : i % 12 = 11
  · have hyear : (i + 1) / 12 = i / 12 + 1 := by omega
    have hmonth : ((i + 1) % 12 + 1).toNat = 1 := by omega
    have hthis : (i % 12 + 1).toNat = 12 := by omega
    have hnext := beforeYear_succ (i / 12)
    have hwhole := beforeMonth_thirteen (i / 12)
    rw [hthis] at hsucc ⊢
    have hdecember : beforeMonth (i / 12) 13 = _ := hsucc
    unfold monthStart dayNumber
    rw [hyear, hmonth, hthis]
    have hjanuary : beforeMonth (i / 12 + 1) 1 = 0 := rfl
    omega
  · have hyear : (i + 1) / 12 = i / 12 := by omega
    have hmonth : ((i + 1) % 12 + 1).toNat = (i % 12 + 1).toNat + 1 := by omega
    unfold monthStart dayNumber
    rw [hyear, hmonth]
    omega

theorem monthStart_strictMono : StrictMono monthStart := by
  refine strictMono_int_of_lt_succ ?_
  intro i
  have hlength := (monthLength_bounds (i / 12) (i % 12 + 1).toNat).1
  rw [monthStart_succ]
  omega

theorem Date.inMonth (d : Date) : monthStart d.monthIndex ≤ d.number ∧ d.number < monthStart (d.monthIndex + 1) := by
  obtain ⟨h₁, h₂, h₃, h₄⟩ := d.isDate
  have hstart : monthStart d.monthIndex = dayNumber d.year d.month 1 := monthStart_of h₁ h₂
  have hyear : d.monthIndex / 12 = d.year := by
    unfold Date.monthIndex
    omega
  have hmonth : (d.monthIndex % 12 + 1).toNat = d.month := by
    unfold Date.monthIndex
    omega
  rw [monthStart_succ, hstart, hyear, hmonth]
  unfold Date.number dayNumber
  omega

theorem Date.monthIndex_eq_iff {d : Date} {i : Int} :
    d.monthIndex = i ↔ monthStart i ≤ d.number ∧ d.number < monthStart (i + 1) := by
  have hin := d.inMonth
  constructor
  · rintro rfl
    exact hin
  · intro h
    rcases lt_trichotomy d.monthIndex i with hlt | heq | hgt
    · have hmono := monthStart_strictMono.monotone (show d.monthIndex + 1 ≤ i by omega)
      omega
    · exact heq
    · have hmono := monthStart_strictMono.monotone (show i + 1 ≤ d.monthIndex by omega)
      omega

end Recurrence

namespace Recurrence

/-! ## Rules -/

inductive Frequency
  | yearly | monthly | weekly | daily | hourly | minutely | secondly
deriving DecidableEq, Repr

inductive RecurrenceSkip
  | omit | backward | forward
deriving DecidableEq, Repr

/-- A weekday, or its nth of the period; a negative one counts from the end. -/
structure NDay where
  day : Weekday
  nthOfPeriod : Option Int
  nonzero : nthOfPeriod ≠ some 0
deriving DecidableEq

theorem NDay.every_nonzero : (none : Option Int) ≠ some 0 := by decide

theorem NDay.nth_nonzero {n : Int} (h : n ≠ 0) : some n ≠ some 0 := by simpa using h

structure Time where
  hour : Nat
  minute : Nat
  second : Nat
  nanosecond : Nat
  proper : hour < 24 ∧ minute < 60 ∧ second < 60 ∧ nanosecond < 1000000000
deriving DecidableEq

def nanosPerDay : Int := 86400000000000

def Time.nanos (t : Time) : Int :=
  ((t.hour * 60 + t.minute) * 60 + t.second) * 1000000000 + t.nanosecond

theorem Time.nanos_bounds (t : Time) : 0 ≤ t.nanos ∧ t.nanos < nanosPerDay := by
  have h := t.proper
  unfold Time.nanos nanosPerDay
  omega

theorem Time.nanos_injective : Function.Injective Time.nanos := by
  intro a b h
  have ha := a.proper
  have hb := b.proper
  unfold Time.nanos at h
  cases a
  cases b
  simp only at h ha hb
  congr 1 <;> omega

def Time.midnight : Time := ⟨0, 0, 0, 0, by decide⟩

/-- A date and a time of day, without a zone. -/
structure LocalDateTime where
  date : Date
  time : Time
deriving DecidableEq

/-- The nanoseconds from the start of the year 0 on, as the wall clock shows them. -/
def LocalDateTime.nanos (t : LocalDateTime) : Int := t.date.number * nanosPerDay + t.time.nanos

theorem LocalDateTime.nanos_injective : Function.Injective LocalDateTime.nanos := by
  intro a b h
  have ha := a.time.nanos_bounds
  have hb := b.time.nanos_bounds
  unfold LocalDateTime.nanos at h
  unfold nanosPerDay at *
  have hdate : a.date = b.date := Date.number_injective (by omega)
  have htime : a.time = b.time := Time.nanos_injective (by rw [hdate] at h; omega)
  cases a
  cases b
  simp only at hdate htime
  rw [hdate, htime]

instance : LinearOrder LocalDateTime :=
  LinearOrder.lift' LocalDateTime.nanos LocalDateTime.nanos_injective

theorem LocalDateTime.lt_def {a b : LocalDateTime} : a < b ↔ a.nanos < b.nanos := Iff.rfl

inductive RecurrenceBound
  | unbounded
  | count (n : Nat) (pos : 0 < n)
  | untilTime (t : LocalDateTime)
deriving DecidableEq

/-- A recurrence rule, part by part.  An empty list is a part the rule does not have. -/
structure RecurrenceRule where
  frequency : Frequency
  interval : Nat
  rscale : Option String
  skip : RecurrenceSkip
  firstDayOfWeek : Weekday
  byDay : List NDay
  byMonthDay : List Int
  byMonth : List String
  byYearDay : List Int
  byWeekNo : List Int
  byHour : List Nat
  byMinute : List Nat
  bySecond : List Nat
  bySetPosition : List Int
  bound : RecurrenceBound
  intervalPos : 0 < interval
deriving DecidableEq

/-- A rule with an interval of one and no other parts. -/
def RecurrenceRule.new (frequency : Frequency) : RecurrenceRule :=
  ⟨frequency, 1, none, .omit, .mo, [], [], [], [], [], [], [], [], [], .unbounded, by decide⟩

inductive ExpandError
  | unsupportedRule (what : String)
  | unsupportedZone (zone : String)
  | invalidOverride (recurrenceId : LocalDateTime) (reason : String)
  | outOfRange
  | tooManyInstances (cap : Nat)
deriving DecidableEq

/-! ## Parts of a rule -/

def orOutOfRange {α : Type} : Option α → Except ExpandError α
  | some a => .ok a
  | none => .error .outOfRange

def ymd (year : Int) (month day : Nat) : Except ExpandError Date := orOutOfRange (Date.new? year month day)

def addDays (date : Date) (days : Int) : Except ExpandError Date := orOutOfRange (date.addDays? days)

/-- A later month.  `i32` holds the months counted and `i16` the year. -/
def addMonths (year : Int) (month add : Nat) : Option (Int × Nat) :=
  let zeroBased : Int := (month : Int) - 1 + add
  let newYear := year + zeroBased / 12
  if zeroBased < 2 ^ 31 && -(2 ^ 15) ≤ newYear && newYear < 2 ^ 15 then
    some (newYear, (zeroBased % 12 + 1).toNat)
  else none

/-- One entry of `BYMONTH`; what follows its digits is ignored. -/
def parseMonth (entry : String) : Except ExpandError Nat :=
  let digits := entry.toList.takeWhile Char.isDigit
  let month := Nat.ofDigitChars 10 digits 0
  if digits.isEmpty || 127 < month then .error (.unsupportedRule "malformed BYMONTH")
  else if 1 ≤ month && month ≤ 12 then .ok month
  else .error .outOfRange

def monthSet (months : List Nat) : List Nat := (List.range' 1 12).filter months.contains

def parseByMonth (byMonth : List String) : Except ExpandError (Option (List Nat)) :=
  if byMonth.isEmpty then .ok none
  else do
    let months ← byMonth.mapM parseMonth
    return some (monthSet months)

def refuse (what : String) : Except ExpandError Unit := .error (.unsupportedRule what)

def checkSupported (rule : RecurrenceRule) : Except ExpandError Unit :=
  let hasNth := rule.byDay.any (·.nthOfPeriod.isSome)
  if rule.rscale.isSome then refuse "RSCALE / non-Gregorian recurrence"
  else if rule.frequency != .daily && rule.frequency != .weekly && rule.frequency != .monthly &&
      rule.frequency != .yearly then refuse "sub-daily frequency"
  else if !rule.byYearDay.isEmpty then refuse "BYYEARDAY"
  else if !rule.byWeekNo.isEmpty then refuse "BYWEEKNO"
  else if !rule.bySetPosition.isEmpty then refuse "BYSETPOS"
  else if !rule.byHour.isEmpty || !rule.byMinute.isEmpty || !rule.bySecond.isEmpty then
    refuse "BYHOUR/BYMINUTE/BYSECOND"
  else if hasNth && (rule.frequency == .daily || rule.frequency == .weekly) then
    refuse "nth BYDAY requires MONTHLY or YEARLY"
  else if hasNth && rule.frequency == .yearly && rule.byMonth.isEmpty then
    refuse "year-relative nth BYDAY (without BYMONTH)"
  else .ok ()

/-- What a `BYMONTHDAY` value means in a month of so many days. -/
def monthDay (md : Int) (daysInMonth : Nat) : Int :=
  if 0 < md then md else if md < 0 then daysInMonth + md + 1 else 0

/-! ## Collecting dates -/

/-- What is collected so far, and the bounds.  A date that is in `out` is not pushed again. -/
structure Acc where
  out : List Date
  start : Date
  upper : Date
  byMonth : Option (List Nat)
  count : Option Nat
  cap : Nat

namespace Acc

def full (acc : Acc) : Bool := acc.count.any fun c => c ≤ acc.out.length

/-- In range, and in a month `BYMONTH` names. -/
def admits (acc : Acc) (date : Date) : Bool :=
  acc.start ≤ date && date ≤ acc.upper && acc.byMonth.all (·.contains date.month)

/-- Records a date if it is admitted and new, and tells whether `COUNT` is satisfied. -/
def emit (acc : Acc) (date : Date) : Except ExpandError (Bool × Acc) :=
  if !acc.admits date then .ok (false, acc)
  else if date ∈ acc.out then .ok (acc.full, acc)
  else
    let acc := { acc with out := acc.out ++ [date] }
    if acc.cap < acc.out.length then .error (.tooManyInstances acc.cap) else .ok (acc.full, acc)

def emitAll (acc : Acc) : List Date → Except ExpandError (Bool × Acc)
  | [] => .ok (false, acc)
  | date :: rest => do
    let (stop, acc) ← acc.emit date
    if stop then return (true, acc) else acc.emitAll rest

end Acc

/-! ## Daily and weekly rules -/

/-- Whether a day passes `BYDAY` and `BYMONTHDAY`. -/
def dailyMatches (date : Date) (rule : RecurrenceRule) : Bool :=
  (rule.byDay.isEmpty || rule.byDay.any fun nd => nd.day == date.weekday) &&
    (rule.byMonthDay.isEmpty ||
      rule.byMonthDay.any fun md => monthDay md date.daysInMonth == (date.day : Int))

def generateDaily (rule : RecurrenceRule) : Nat → Acc → Date → Except ExpandError Acc
  | 0, acc, _ => .ok acc
  | rounds + 1, acc, date => do
    let date ← addDays date rule.interval
    if acc.upper < date then return acc
    else if dailyMatches date rule then
      let (stop, acc) ← acc.emit date
      if stop then return acc else generateDaily rule rounds acc date
    else generateDaily rule rounds acc date

def sortDedup (dates : List Date) : List Date := (dates.insertionSort (· ≤ ·)).dedup

def weekOffset (wkst weekday : Weekday) : Int := ((weekday.offset : Int) - wkst.offset) % 7

def weeklyTargets (rule : RecurrenceRule) (start : Date) : List Weekday :=
  if rule.byDay.isEmpty then [start.weekday] else rule.byDay.map (·.day)

/-- Emits the days of a week up to the bound.  Past it, nothing more is to come. -/
def emitWeek (acc : Acc) : List Date → Except ExpandError (Bool × Acc)
  | [] => .ok (false, acc)
  | date :: rest =>
    if acc.upper < date then .ok (true, acc)
    else do
      let (stop, acc) ← acc.emit date
      if stop then return (true, acc) else emitWeek acc rest

def weekDates (rule : RecurrenceRule) (start anchor : Date) : Except ExpandError (List Date) := do
  let week ← (weeklyTargets rule start).mapM fun weekday =>
    addDays anchor (weekOffset rule.firstDayOfWeek weekday)
  return sortDedup week

def generateWeekly (rule : RecurrenceRule) : Nat → Acc → Date → Except ExpandError Acc
  | 0, acc, _ => .ok acc
  | rounds + 1, acc, anchor => do
    let week ← weekDates rule acc.start anchor
    let (stop, acc) ← emitWeek acc week
    if stop then return acc
    else
      let anchor ← addDays anchor (rule.interval * 7)
      if acc.upper < anchor then return acc else generateWeekly rule rounds acc anchor

def firstAnchor (rule : RecurrenceRule) (start : Date) : Except ExpandError Date :=
  addDays start (-weekOffset rule.firstDayOfWeek start.weekday)

/-! ## Monthly and yearly rules -/

/-- The days of a month that `BYMONTHDAY` names. -/
def monthDayDates (year : Int) (month : Nat) (byMonthDay : List Int) : Except ExpandError (List Date) := do
  let first ← ymd year month 1
  let days := (byMonthDay.map fun md => monthDay md first.daysInMonth).filter fun day =>
    1 ≤ day && day ≤ (first.daysInMonth : Int)
  days.mapM fun day => ymd year month day.toNat

/-- The days of a month one entry of `BYDAY` names. -/
def ndayDates (first : Date) (nd : NDay) : Except ExpandError (List Date) :=
  match nd.nthOfPeriod with
  | some nth =>
    if -128 ≤ nth && nth ≤ 127 then .ok (first.nthWeekdayOfMonth? nth nd.day).toList
    else .error .outOfRange
  | none => do
    let days ← (List.range' 1 first.daysInMonth).mapM fun day => ymd first.year first.month day
    return days.filter fun date => date.weekday == nd.day

def weekdayDates (year : Int) (month : Nat) (byDay : List NDay) : Except ExpandError (List Date) := do
  let first ← ymd year month 1
  let dates ← byDay.mapM (ndayDates first)
  return dates.flatten

def sameDayDates (year : Int) (month : Nat) (start : Date) : Except ExpandError (List Date) := do
  let first ← ymd year month 1
  if start.day ≤ first.daysInMonth then
    let date ← ymd year month start.day
    return [date]
  else return []

/-- The days of a month that both parts name. -/
def commonDates (year : Int) (month : Nat) (rule : RecurrenceRule) : Except ExpandError (List Date) := do
  let weekdays ← weekdayDates year month rule.byDay
  let days ← monthDayDates year month rule.byMonthDay
  return days.filter weekdays.contains

/-- The days of a month the rule's parts name, or the start's day where it has neither part. -/
def namedDates (year : Int) (month : Nat) (rule : RecurrenceRule) (start : Date) :
    Except ExpandError (List Date) :=
  if rule.byMonthDay.isEmpty then
    if rule.byDay.isEmpty then sameDayDates year month start else weekdayDates year month rule.byDay
  else if rule.byDay.isEmpty then monthDayDates year month rule.byMonthDay
  else commonDates year month rule

def daysInMonth (year : Int) (month : Nat) (rule : RecurrenceRule) (start : Date) :
    Except ExpandError (List Date) := do
  let days ← namedDates year month rule start
  return sortDedup days

def generateMonthly (rule : RecurrenceRule) : Nat → Acc → Int → Nat → Except ExpandError Acc
  | 0, acc, _, _ => .ok acc
  | rounds + 1, acc, year, month => do
    let first ← ymd year month 1
    if acc.upper < first then return acc
    else
      let days ← daysInMonth year month rule acc.start
      let (stop, acc) ← acc.emitAll days
      if stop then return acc
      else
        let (year, month) ← orOutOfRange (addMonths year month rule.interval)
        generateMonthly rule rounds acc year month

def emitMonths (rule : RecurrenceRule) (year : Int) (acc : Acc) :
    List Nat → Except ExpandError (Bool × Acc)
  | [] => .ok (false, acc)
  | month :: rest => do
    let days ← daysInMonth year month rule acc.start
    let (stop, acc) ← acc.emitAll days
    if stop then return (true, acc) else emitMonths rule year acc rest

/-- A later year, within `i16`. -/
def addYears (year : Int) (interval : Nat) : Option Int :=
  if year + interval < 2 ^ 15 then some (year + interval) else none

def generateYearly (rule : RecurrenceRule) (months : List Nat) :
    Nat → Acc → Int → Except ExpandError Acc
  | 0, acc, _ => .ok acc
  | rounds + 1, acc, year => do
    let first ← ymd year 1 1
    if acc.upper < first then return acc
    else
      let (stop, acc) ← emitMonths rule year acc months
      if stop then return acc
      else
        let year ← orOutOfRange (addYears year rule.interval)
        generateYearly rule months rounds acc year

/-! ## The dates of a rule -/

def roundsTo (acc : Acc) : Nat := (acc.upper.number - acc.start.number).toNat + 366

def generate (rule : RecurrenceRule) (acc : Acc) : Except ExpandError Acc :=
  match rule.frequency with
  | .daily => generateDaily rule (roundsTo acc) acc acc.start
  | .weekly => do
    let anchor ← firstAnchor rule acc.start
    generateWeekly rule (roundsTo acc) acc anchor
  | .monthly => generateMonthly rule (roundsTo acc) acc acc.start.year acc.start.month
  | .yearly =>
    let months := acc.byMonth.getD [acc.start.month]
    if rule.interval < 2 ^ 15 then generateYearly rule months (roundsTo acc) acc acc.start.year
    else .error .outOfRange
  -- `checkSupported` has refused the others.
  | _ => .ok acc

def RecurrenceBound.limit : RecurrenceBound → Option Nat
  | .count n _ => some n
  | _ => none

/-- The last date of a window, as far as the rule goes. -/
def RecurrenceBound.clip (bound : RecurrenceBound) (windowEnd : Date) : Date :=
  match bound with
  | .untilTime t => min t.date windowEnd
  | _ => windowEnd

def occurrenceDates (start : Date) (rule : RecurrenceRule) (windowEnd : Date) (cap : Nat) :
    Except ExpandError (List Date) := do
  checkSupported rule
  let byMonth ← parseByMonth rule.byMonth
  let acc : Acc := ⟨[], start, rule.bound.clip windowEnd, byMonth, rule.bound.limit, cap⟩
  let (stop, acc) ← acc.emit start
  let acc ← if stop then pure acc else generate rule acc
  let out := acc.out.insertionSort (· ≤ ·)
  return match rule.bound.limit with
    | some limit => out.take limit
    | none => out

end Recurrence
end SyncEngine
