import Mathlib
import SyncEngine.Library.Lists
import SyncEngine.Scope.Store
import SyncEngine.Clock.Sortable

/-!
# Expanding an event

An event is expanded to the occurrences that start within a horizon.  The time zone database is a parameter:
which zones it has, and what a wall clock comes to in each.
-/

namespace SyncEngine
namespace Recurrence

/-!
## Times and durations as text

What the patch of an instance says about its start and its duration is text.  Only whether it can be read,
and as what, matters: every error is reported by the field's own reason, and a text the parser panics on gives
no expansion either.
-/

def parseWallClock (text : String) : Option LocalDateTime := (Clock.parseWallClock text.toList).run.bind Except.toOption

def parseDuration (text : String) : Option Duration := (Clock.parseDuration text.toList).run.bind Except.toOption

example : parseWallClock "2024-03-10T10:00:00" =
    some ⟨⟨2024, 3, 10, by decide, by decide⟩, ⟨10, 0, 0, 0, by decide⟩⟩ := by decide +kernel

example : parseDuration "P1W2DT1H30M1.5S" = some ⟨9, 5401, 500000000, by decide⟩ := by decide +kernel

/-! ## Time zones -/

inductive TimeZoneId
  | iana (name : String)
  | custom (id : String)
deriving DecidableEq

/-- The bundled time zone database.  A zoned time is the instant it stands for. -/
structure Tzdb (Zone : Type) where
  /-- The zone of a name. -/
  get : String → Option Zone
  utc : Zone
  /-- The instant of a wall-clock time; in a gap or a fold, the compatible one. -/
  toZoned : Zone → LocalDateTime → Option UtcDateTime
  /-- The same wall-clock time so many days later. -/
  addDays : Zone → UtcDateTime → Nat → Option UtcDateTime
  /-- So many seconds and nanoseconds later. -/
  addTime : UtcDateTime → Nat → Nat → Option UtcDateTime
  version : String

/-- The wall clock of UTC at an instant, counted as `LocalDateTime.nanos` is. -/
def utcNanos (t : UtcDateTime) : Int := t.nanos + Civil.beforeYear (-9999) * nanosPerDay

/-- Written with four digits and read back, which a year before 0 does not survive. -/
def timestampToUtc (t : UtcDateTime) : Except ExpandError UtcDateTime :=
  if 0 ≤ utcNanos t then .ok t else .error .outOfRange

def utcDate (t : UtcDateTime) : Except ExpandError Date := orOutOfRange (Date.ofNumber? (utcNanos t / nanosPerDay))

section Zones

variable {Zone : Type} (tz : Tzdb Zone)

def resolveZoneId : TimeZoneId → Except ExpandError Zone
  | .iana name =>
    match tz.get name with
    | some zone => .ok zone
    | none => .error (.unsupportedZone name)
  | .custom id => .error (.unsupportedZone id)

def resolve (zone : Zone) (wall : LocalDateTime) : Except ExpandError UtcDateTime := do
  let t ← orOutOfRange (tz.toZoned zone wall)
  timestampToUtc t

def maxDurationDays : Nat := 3660000

def addTimeOf (t : UtcDateTime) (seconds nanoseconds : Nat) : Except ExpandError UtcDateTime :=
  if seconds = 0 ∧ nanoseconds = 0 then .ok t else orOutOfRange (tz.addTime t seconds nanoseconds)

def addDaysOf (zone : Zone) (t : UtcDateTime) (days : Nat) : Except ExpandError UtcDateTime :=
  if days = 0 then .ok t else orOutOfRange (tz.addDays zone t days)

/-- Days in calendar time, then the rest in absolute time.  `i64` holds the seconds. -/
def addDuration (zone : Zone) (start : UtcDateTime) (duration : Duration) : Except ExpandError UtcDateTime :=
  if maxDurationDays < duration.days || 2 ^ 63 ≤ duration.seconds then .error .outOfRange
  else do
    let t ← addDaysOf tz zone start duration.days
    addTimeOf tz t duration.seconds duration.nanoseconds

def resolveRange (zone : Zone) (wall : LocalDateTime) (duration : Duration) :
    Except ExpandError (UtcDateTime × UtcDateTime) := do
  let start ← orOutOfRange (tz.toZoned zone wall)
  let finish ← addDuration tz zone start duration
  let start ← timestampToUtc start
  let finish ← timestampToUtc finish
  return (start, finish)

end Zones

/-! ## Events -/

inductive CalendarDateTime
  | date (d : Date)
  | floating (wall : LocalDateTime)
  | zoned (wall : LocalDateTime) (zone : TimeZoneId)
deriving DecidableEq

/-- A value of a patch.  What is neither text nor null is only refused. -/
inductive PatchValue
  | null
  | text (s : String)
  | other
deriving DecidableEq

abbrev PatchObject := List (String × PatchValue)

inductive RecurrenceOverride
  | excluded
  | patch (patch : PatchObject)
deriving DecidableEq

/-- The recurrence of an event.  The overrides are in the order of the times they are for. -/
structure RecurrenceSet where
  rules : List RecurrenceRule
  excludedRules : List RecurrenceRule
  overrides : List (LocalDateTime × RecurrenceOverride)
  sorted : overrides.Pairwise fun a b => a.1 < b.1

structure Event where
  key : ProviderKey
  start : CalendarDateTime
  duration : Duration
  cancelled : Bool
  recurrence : Option RecurrenceSet
  recurrenceId : Option CalendarDateTime

/-! ## Patches -/

def patchCancelled (patch : PatchObject) : Bool := patch.lookup "status" == some (.text "cancelled")

def patchStr (patch : PatchObject) (field : String) : Except String (Option String) :=
  match patch.lookup field with
  | none | some .null => .ok none
  | some (.text s) => .ok (some s)
  | some .other => .error "override field must be a string"

def patchField {α : Type} (parse : String → Option α) (reason : String) (patch : PatchObject) (field : String) :
    Except String (Option α) := do
  match ← patchStr patch field with
  | none => return none
  | some text =>
    match parse text with
    | some a => return some a
    | none => .error reason

def patchStart (patch : PatchObject) : Except String (Option LocalDateTime) :=
  patchField parseWallClock "malformed override start" patch "start"

def patchDuration (patch : PatchObject) : Except String (Option Duration) :=
  patchField parseDuration "malformed override duration" patch "duration"

def parseTimeZone (text : String) : Option TimeZoneId := if text.isEmpty then none else some (.iana text)

def patchTimezone (patch : PatchObject) : Except String (Option TimeZoneId) :=
  patchField parseTimeZone "empty override timeZone" patch "timeZone"

/-- A malformed patch is reported for the instance it is for. -/
def orInvalid {α : Type} (rid : LocalDateTime) : Except String α → Except ExpandError α
  | .ok a => .ok a
  | .error reason => .error (.invalidOverride rid reason)

/-! ## Rows -/

/-- The zone an event's times are resolved through, and the date and time of day of its start. -/
structure Context (Zone : Type) where
  zone : Zone
  date : Date
  time : Time

def instanceRid (time : Time) (date : Date) : LocalDateTime :=
  ⟨date, ⟨time.hour, time.minute, time.second, 0,
    ⟨time.proper.1, time.proper.2.1, time.proper.2.2.1, by decide⟩⟩⟩

def instanceCap : Nat := 100000

section Materializer

variable {Zone : Type} (tz : Tzdb Zone) (hostZone : TimeZoneId) (event : Event) (horizon : Horizon)

def inWindow (start : UtcDateTime) : Bool := horizon.start ≤ start && start < horizon.finish

def mkRow (start finish : UtcDateTime) (recurrenceId : Option UtcDateTime) : OccurrenceRow :=
  ⟨event.key, start, finish, recurrenceId, tz.version⟩

def rowIn (range : UtcDateTime × UtcDateTime) (recurrenceId : Option UtcDateTime) : Option OccurrenceRow :=
  if inWindow horizon range.1 then some (mkRow tz event range.1 range.2 recurrenceId) else none

def context : CalendarDateTime → Except ExpandError (Context Zone)
  | .date d => .ok ⟨tz.utc, d, .midnight⟩
  | .floating wall => do
    let zone ← resolveZoneId tz hostZone
    return ⟨zone, wall.date, wall.time⟩
  | .zoned wall id => do
    let zone ← resolveZoneId tz id
    return ⟨zone, wall.date, wall.time⟩

def resolvePoint (value : CalendarDateTime) : Except ExpandError UtcDateTime := do
  let ctx ← context tz hostZone value
  resolve tz ctx.zone ⟨ctx.date, ctx.time⟩

def zoneOr (zone : Zone) : Option TimeZoneId → Except ExpandError Zone
  | some id => resolveZoneId tz id
  | none => .ok zone

/-- The row of an instance that is patched or added, unless it is cancelled or outside the horizon. -/
def overrideRow (ctx : Context Zone) (rid : LocalDateTime) (patch : PatchObject) :
    Except ExpandError (Option OccurrenceRow) :=
  if patchCancelled patch then .ok none
  else do
    let ridUtc ← resolve tz ctx.zone rid
    let start ← orInvalid rid (patchStart patch)
    let zoneId ← orInvalid rid (patchTimezone patch)
    let zone ← zoneOr tz ctx.zone zoneId
    let duration ← orInvalid rid (patchDuration patch)
    let range ← resolveRange tz zone (start.getD rid) (duration.getD event.duration)
    return rowIn tz event horizon range (some ridUtc)

/-- The row of a base instance, patched where there is an override for it. -/
def instanceRow (ctx : Context Zone) (overrides : List (LocalDateTime × RecurrenceOverride)) (date : Date) :
    Except ExpandError (Option OccurrenceRow) :=
  match overrides.lookup (instanceRid ctx.time date) with
  | some .excluded => .ok none
  | some (.patch patch) => overrideRow tz event horizon ctx (instanceRid ctx.time date) patch
  | none => do
    let range ← resolveRange tz ctx.zone ⟨date, ctx.time⟩ event.duration
    return rowIn tz event horizon range none

def additionRow (ctx : Context Zone) : LocalDateTime × RecurrenceOverride → Except ExpandError (Option OccurrenceRow)
  | (_, .excluded) => .ok none
  | (rid, .patch patch) => overrideRow tz event horizon ctx rid patch

/-- Whether the rule's `UNTIL`, to the second, lets a date be. -/
def untilAdmits (bound : RecurrenceBound) (time : Time) (date : Date) : Bool :=
  match bound with
  | .untilTime t => instanceRid time date ≤ t
  | _ => true

def ruleDates (ctx : Context Zone) (windowEnd : Date) (rule : RecurrenceRule) : Except ExpandError (List Date) := do
  let dates ← occurrenceDates ctx.date rule windowEnd instanceCap
  return dates.filter (untilAdmits rule.bound ctx.time)

def excludedDates (ctx : Context Zone) (windowEnd : Date) (rule : RecurrenceRule) :
    Except ExpandError (List Date) :=
  occurrenceDates ctx.date rule windowEnd instanceCap

/-- The dates of the base instances: those of the rules without those of the excluded rules, in order. -/
def baseDates (ctx : Context Zone) (windowEnd : Date) (recurrence : RecurrenceSet) :
    Except ExpandError (List Date) := do
  let included ← recurrence.rules.mapM (ruleDates ctx windowEnd)
  let excluded ← recurrence.excludedRules.mapM (excludedDates ctx windowEnd)
  return sortDedup (included.flatten.filter (!excluded.flatten.contains ·))

/-- Rows are ordered by their start and then by the instance they stand for. -/
def rowKey (row : OccurrenceRow) : UtcDateTime ×ₗ WithBot UtcDateTime := toLex (row.start, row.recurrenceId)

def sortRows (rows : List OccurrenceRow) : List OccurrenceRow := StableSort.sortBy rowKey rows

def windowEndOf : Except ExpandError Date := do
  let last ← utcDate horizon.finish
  addDays last 1

def recurring (recurrence : RecurrenceSet) : Except ExpandError (List OccurrenceRow) := do
  let ctx ← context tz hostZone event.start
  let windowEnd ← windowEndOf horizon
  let base ← baseDates ctx windowEnd recurrence
  let rows ← base.mapM (instanceRow tz event horizon ctx recurrence.overrides)
  let covered := base.map (instanceRid ctx.time)
  let additions ← (recurrence.overrides.filter (!covered.contains ·.1)).mapM (additionRow tz event horizon ctx)
  return sortRows ((rows ++ additions).reduceOption)

def standaloneInstance (recurrenceId : CalendarDateTime) : Except ExpandError (List OccurrenceRow) := do
  let ctx ← context tz hostZone event.start
  let range ← resolveRange tz ctx.zone ⟨ctx.date, ctx.time⟩ event.duration
  if inWindow horizon range.1 then
    let rid ← resolvePoint tz hostZone recurrenceId
    return [mkRow tz event range.1 range.2 (some rid)]
  else return []

def single : Except ExpandError (List OccurrenceRow) := do
  let ctx ← context tz hostZone event.start
  let range ← resolveRange tz ctx.zone ⟨ctx.date, ctx.time⟩ event.duration
  return (rowIn tz event horizon range none).toList

def expand : Except ExpandError (List OccurrenceRow) :=
  if event.cancelled then .ok []
  else
    match event.recurrenceId with
    | some recurrenceId => standaloneInstance tz hostZone event horizon recurrenceId
    | none =>
      match event.recurrence.filter (!·.rules.isEmpty) with
      | some recurrence => recurring tz hostZone event horizon recurrence
      | none => single tz hostZone event horizon

end Materializer

/-!
## Expanding with machine integers

The steps of the expansion as the machine takes them: every number has a width, a result that does not fit is an
overflow, a span or a duration that cannot be built is a panic, and a loop that is not over after its rounds has not
ended.  All of these are nothing; everything else is a value or an error.
-/

/-- What a computation comes to: nothing where it overflows, panics or goes on. -/
abbrev Checked (α : Type) : Type := ExceptT ExpandError Option α

namespace Checked

section Steps

variable {α : Type}

/-- A step that can only fail. -/
def of (x : Except ExpandError α) : Checked α := ExceptT.mk (some x)

def stuck : Checked α := ExceptT.mk none

/-- The number, if a signed integer of so many bits holds it. -/
def signed (bits : Nat) (n : Int) : Checked Int :=
  if -2 ^ (bits - 1) ≤ n ∧ n < 2 ^ (bits - 1) then pure n else stuck

end Steps

/-! ## Days and months -/

def spanDays : Nat := 7304484

/-- The span is built fallibly. -/
def addDays (date : Date) (days : Int) : Checked Date :=
  if spanDays < days.natAbs then of (.error .outOfRange) else of (Recurrence.addDays date days)

def addMonths (year : Int) (month add : Nat) : Checked (Option (Int × Nat)) := do
  let before ← signed 32 (month - 1)
  -- `i32::try_from` takes the interval
  if 2 ^ 31 ≤ add then return none
  else
    let zeroBased ← signed 32 (before + add)
    let newYear ← signed 32 (year + zeroBased / 12)
    let newMonth ← signed 32 (zeroBased % 12 + 1)
    if -2 ^ 15 ≤ newYear ∧ newYear < 2 ^ 15 ∧ newMonth < 2 ^ 7 then return some (newYear, newMonth.toNat)
    else return none

def monthDay (md : Int) (daysInMonth : Nat) : Checked Int :=
  if 0 < md then pure md
  else if md < 0 then do
    let sum ← signed 32 (daysInMonth + md)
    signed 32 (sum + 1)
  else pure 0

/-! ## Daily and weekly rules -/

def anyMonthDay (date : Date) : List Int → Checked Bool
  | [] => pure false
  | md :: rest => do
    let day ← monthDay md date.daysInMonth
    if day == date.day then return true else anyMonthDay date rest

def dailyMatches (date : Date) (rule : RecurrenceRule) : Checked Bool :=
  if rule.byDay.isEmpty || rule.byDay.any fun nd => nd.day == date.weekday then
    if rule.byMonthDay.isEmpty then pure true else anyMonthDay date rule.byMonthDay
  else pure false

def generateDaily (rule : RecurrenceRule) : Nat → Acc → Date → Checked Acc
  | 0, _, _ => stuck
  | rounds + 1, acc, date => do
    let date ← addDays date rule.interval
    if acc.upper < date then return acc
    else
      let matches_ ← dailyMatches date rule
      if matches_ then
        let (stop, acc) ← of (acc.emit date)
        if stop then return acc else generateDaily rule rounds acc date
      else generateDaily rule rounds acc date

def weekOffset (wkst weekday : Weekday) : Checked Int := do
  let between ← signed 64 (weekday.offset - wkst.offset)
  return between % 7

def weekDates (rule : RecurrenceRule) (start anchor : Date) : Checked (List Date) := do
  let week ← (weeklyTargets rule start).mapM fun weekday => do
    let offset ← weekOffset rule.firstDayOfWeek weekday
    addDays anchor offset
  return sortDedup week

def generateWeekly (rule : RecurrenceRule) (step : Int) : Nat → Acc → Date → Checked Acc
  | 0, _, _ => stuck
  | rounds + 1, acc, anchor => do
    let week ← weekDates rule acc.start anchor
    let (stop, acc) ← of (emitWeek acc week)
    if stop then return acc
    else
      let anchor ← addDays anchor step
      if acc.upper < anchor then return acc else generateWeekly rule step rounds acc anchor

def firstAnchor (rule : RecurrenceRule) (start : Date) : Checked Date := do
  let offset ← weekOffset rule.firstDayOfWeek start.weekday
  let back ← signed 64 (-offset)
  addDays start back

/-! ## Monthly and yearly rules -/

/-- The date an entry of `BYMONTHDAY` names, if the month has it. -/
def monthDayDate (year : Int) (month daysInMonth : Nat) (md : Int) : Checked (Option Date) := do
  let day ← monthDay md daysInMonth
  if 1 ≤ day ∧ day ≤ daysInMonth then
    let date ← of (ymd year month day.toNat)
    return some date
  else return none

def monthDayDates (year : Int) (month : Nat) (byMonthDay : List Int) : Checked (List Date) := do
  let first ← of (ymd year month 1)
  let dates ← byMonthDay.mapM (monthDayDate year month first.daysInMonth)
  return dates.reduceOption

def commonDates (year : Int) (month : Nat) (rule : RecurrenceRule) : Checked (List Date) := do
  let weekdays ← of (weekdayDates year month rule.byDay)
  let days ← monthDayDates year month rule.byMonthDay
  return days.filter weekdays.contains

def namedDates (year : Int) (month : Nat) (rule : RecurrenceRule) (start : Date) : Checked (List Date) :=
  if rule.byMonthDay.isEmpty then
    if rule.byDay.isEmpty then of (sameDayDates year month start) else of (weekdayDates year month rule.byDay)
  else if rule.byDay.isEmpty then monthDayDates year month rule.byMonthDay
  else commonDates year month rule

def daysInMonth (year : Int) (month : Nat) (rule : RecurrenceRule) (start : Date) : Checked (List Date) := do
  let days ← namedDates year month rule start
  return sortDedup days

def generateMonthly (rule : RecurrenceRule) : Nat → Acc → Int → Nat → Checked Acc
  | 0, _, _, _ => stuck
  | rounds + 1, acc, year, month => do
    let first ← of (ymd year month 1)
    if acc.upper < first then return acc
    else
      let days ← daysInMonth year month rule acc.start
      let (stop, acc) ← of (acc.emitAll days)
      if stop then return acc
      else
        let next ← addMonths year month rule.interval
        let (year, month) ← of (orOutOfRange next)
        generateMonthly rule rounds acc year month

def emitMonths (rule : RecurrenceRule) (year : Int) (acc : Acc) : List Nat → Checked (Bool × Acc)
  | [] => pure (false, acc)
  | month :: rest => do
    let days ← daysInMonth year month rule acc.start
    let (stop, acc) ← of (acc.emitAll days)
    if stop then return (true, acc) else emitMonths rule year acc rest

def generateYearly (rule : RecurrenceRule) (months : List Nat) : Nat → Acc → Int → Checked Acc
  | 0, _, _ => stuck
  | rounds + 1, acc, year => do
    let first ← of (ymd year 1 1)
    if acc.upper < first then return acc
    else
      let (stop, acc) ← emitMonths rule year acc months
      if stop then return acc
      else
        -- `checked_add` on the year
        let year ← of (orOutOfRange (addYears year rule.interval))
        generateYearly rule months rounds acc year

/-! ## The dates of a rule -/

def generate (rule : RecurrenceRule) (rounds : Nat) (acc : Acc) : Checked Acc :=
  match rule.frequency with
  | .daily => generateDaily rule rounds acc acc.start
  | .weekly => do
    let anchor ← firstAnchor rule acc.start
    let step ← signed 64 (rule.interval * 7)
    generateWeekly rule step rounds acc anchor
  | .monthly => generateMonthly rule rounds acc acc.start.year acc.start.month
  | .yearly =>
    let months := acc.byMonth.getD [acc.start.month]
    if rule.interval < 2 ^ 15 then generateYearly rule months rounds acc acc.start.year
    else of (.error .outOfRange)
  -- `unreachable!`
  | _ => stuck

def occurrenceDates (rounds : Nat) (start : Date) (rule : RecurrenceRule) (windowEnd : Date) (cap : Nat) :
    Checked (List Date) := do
  of (checkSupported rule)
  let byMonth ← of (parseByMonth rule.byMonth)
  let acc : Acc := ⟨[], start, rule.bound.clip windowEnd, byMonth, rule.bound.limit, cap⟩
  let (stop, acc) ← of (acc.emit start)
  let acc ← if stop then pure acc else generate rule rounds acc
  let out := acc.out.insertionSort (· ≤ ·)
  return match rule.bound.limit with
    | some limit => out.take limit
    | none => out

/-! ## Ranges of instants -/

/-- A span of days panics where it does not hold them. -/
def daysSpan (days : Nat) : Checked Nat := if days ≤ spanDays then pure days else stuck

def signedDuration (seconds nanoseconds : Nat) : Checked (Nat × Nat) := do
  let whole ← signed 64 (seconds + (nanoseconds / 1000000000 : Nat))
  return (whole.toNat, nanoseconds % 1000000000)

/-- The text an instant goes by: the fraction has nine digits, or is left out. -/
def timestampText (t : UtcDateTime) : List Char :=
  let wall := Clock.wallOf t
  (if wall.time.nanosecond = 0 then Clock.formatWallClock wall else Clock.formatWallClockFixed wall) ++ ['Z']

def timestampToUtc (t : UtcDateTime) : Checked UtcDateTime :=
  match (Clock.parseUtcDateTime (timestampText t)).run with
  | some (.ok t) => pure t
  | some (.error _) => of (.error .outOfRange)
  | none => stuck

section Zones

variable {Zone : Type} (tz : Tzdb Zone)

def addDaysOf (zone : Zone) (t : UtcDateTime) (days : Nat) : Checked UtcDateTime :=
  if days = 0 then pure t
  else do
    let span ← daysSpan days
    of (orOutOfRange (tz.addDays zone t span))

def addTimeOf (t : UtcDateTime) (seconds nanoseconds : Nat) : Checked UtcDateTime :=
  if seconds = 0 ∧ nanoseconds = 0 then pure t
  else do
    let (seconds, nanoseconds) ← signedDuration seconds nanoseconds
    of (orOutOfRange (tz.addTime t seconds nanoseconds))

def addDuration (zone : Zone) (start : UtcDateTime) (duration : Duration) : Checked UtcDateTime :=
  if duration.days = 0 ∧ duration.seconds = 0 ∧ duration.nanoseconds = 0 then pure start
  else if 2 ^ 63 ≤ duration.days ∨ maxDurationDays < duration.days then of (.error .outOfRange)
  else if 2 ^ 63 ≤ duration.seconds ∨ 2 ^ 31 ≤ duration.nanoseconds then of (.error .outOfRange)
  else do
    let t ← addDaysOf tz zone start duration.days
    addTimeOf tz t duration.seconds duration.nanoseconds

def resolveRange (zone : Zone) (wall : LocalDateTime) (duration : Duration) :
    Checked (UtcDateTime × UtcDateTime) := do
  let start ← of (orOutOfRange (tz.toZoned zone wall))
  let finish ← addDuration tz zone start duration
  let start ← timestampToUtc start
  let finish ← timestampToUtc finish
  return (start, finish)

end Zones

end Checked

end Recurrence
end SyncEngine
