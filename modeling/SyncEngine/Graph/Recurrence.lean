import SyncEngine.Library.Json
import SyncEngine.Recurrence.Expand

/-!
# Recurrence as Microsoft Graph has it

Graph takes a pattern and a range where the engine has a rule.  Writing a rule renders it as these; reading
the series back parses them.
-/

namespace SyncEngine
namespace Graph

open Recurrence

inductive GraphError
  | protocol (detail : String)
deriving DecidableEq

/-! ## Rendering -/

def unsupported {α : Type} (what : String) : Except GraphError α :=
  .error (.protocol ("Microsoft Graph cannot express " ++ what))

def weekdayName : Weekday → String
  | .mo => "monday"
  | .tu => "tuesday"
  | .we => "wednesday"
  | .th => "thursday"
  | .fr => "friday"
  | .sa => "saturday"
  | .su => "sunday"

/-- Zeller's index: 0 for Saturday, 1 for Sunday and so on. -/
def ofZeller : Int → Weekday
  | 0 => .sa
  | 1 => .su
  | 2 => .mo
  | 3 => .tu
  | 4 => .we
  | 5 => .th
  | _ => .fr

/-- Zeller's congruence.  January and February count as months of the year before; division truncates. -/
def weekdayOf (date : Date) : Weekday :=
  let year : Int := if date.month < 3 then date.year - 1 else date.year
  let month : Int := if date.month < 3 then date.month + 12 else date.month
  let yearOfCentury := year.tmod 100
  let century := year.tdiv 100
  ofZeller ((date.day + (13 * (month + 1)).tdiv 5 + yearOfCentury + yearOfCentury.tdiv 4 + century.tdiv 4 +
    5 * century).tmod 7)

/-- `YYYY-MM-DD`. -/
def isoDate (date : Date) : String := String.ofList (Clock.formatDate date)

def unsupportedPart (rule : RecurrenceRule) : Option String :=
  if !rule.bySetPosition.isEmpty then some "BYSETPOS"
  else if !rule.byWeekNo.isEmpty then some "BYWEEKNO"
  else if !rule.byYearDay.isEmpty then some "BYYEARDAY"
  else if !rule.byHour.isEmpty then some "BYHOUR"
  else if !rule.byMinute.isEmpty then some "BYMINUTE"
  else if !rule.bySecond.isEmpty then some "BYSECOND"
  else none

def unsupportedParts (rule : RecurrenceRule) : Except GraphError Unit :=
  match unsupportedPart rule with
  | some name => unsupported ("a " ++ name ++ " part (Graph's patterns have no equivalent)")
  | none =>
    match rule.rscale with
    | some rscale => unsupported ("a non-Gregorian RSCALE=" ++ rscale ++ " rule")
    | none => .ok ()

def dayOfMonth (rule : RecurrenceRule) (start : Date) : Except GraphError Int :=
  match rule.byMonthDay with
  | [] => .ok start.day
  | [one] =>
    if 0 < one then .ok one
    else if one < 0 then
      unsupported "a BYMONTHDAY counted from the end of the month (Graph has no negative dayOfMonth)"
    else unsupported "more than one BYMONTHDAY (Graph names a single dayOfMonth)"
  | _ => unsupported "more than one BYMONTHDAY (Graph names a single dayOfMonth)"

def sharedOrdinal (days : List NDay) : Except GraphError Int :=
  match days.head?.bind (·.nthOfPeriod) with
  | none => unsupported "a monthly or yearly weekday rule with no ordinal (Graph needs an index)"
  | some first =>
    if days.any (·.nthOfPeriod != some first) then
      unsupported "BYDAY entries with different ordinals (Graph carries one index for the list)"
    else .ok first

def indexName (nth : Int) : Except GraphError String :=
  if nth = 1 then .ok "first"
  else if nth = 2 then .ok "second"
  else if nth = 3 then .ok "third"
  else if nth = 4 then .ok "fourth"
  else if nth = -1 then .ok "last"
  else unsupported ("an ordinal of " ++ toString nth ++ " (Graph indexes only first–fourth and last)")

def dayNames (days : List Weekday) : Json := .arr (days.map fun day => .str (weekdayName day))

def relativePattern (type : String) (rule : RecurrenceRule) (rest : List (String × Json)) :
    Except GraphError Json := do
  let nth ← sharedOrdinal rule.byDay
  let index ← indexName nth
  return .obj (("type", .str type) :: ("daysOfWeek", dayNames (rule.byDay.map (·.day))) ::
    ("index", .str index) :: rest)

def absolutePattern (type : String) (rule : RecurrenceRule) (start : Date) (rest : List (String × Json)) :
    Except GraphError Json := do
  let day ← dayOfMonth rule start
  return .obj (("type", .str type) :: ("dayOfMonth", .num day) :: rest)

def monthly (rule : RecurrenceRule) (start : Date) : Except GraphError Json :=
  if rule.byDay.isEmpty then absolutePattern "absoluteMonthly" rule start []
  else relativePattern "relativeMonthly" rule []

def parseDigits (s : List Char) : Option Nat :=
  if s.isEmpty || !s.all Char.isDigit then none else some (Nat.ofDigitChars 10 s 0)

/-- Text that `u32` reads: digits, a plus before them or not. -/
def parseU32 (text : String) : Option Nat :=
  let digits := match text.toList with
    | '+' :: rest => rest
    | other => other
  (parseDigits digits).filter (· < 2 ^ 32)

def monthOf (rule : RecurrenceRule) (start : Date) : Except GraphError Nat :=
  match rule.byMonth with
  | [] => .ok start.month
  | [one] =>
    match parseU32 one with
    | some month => .ok month
    | none => unsupported "a BYMONTH Graph cannot read as a plain month number (RFC 7529 leap month)"
  | _ => unsupported "more than one BYMONTH (Graph names a single month)"

def yearly (rule : RecurrenceRule) (start : Date) : Except GraphError Json := do
  let month ← monthOf rule start
  if rule.byDay.isEmpty then absolutePattern "absoluteYearly" rule start [("month", .num month)]
  else relativePattern "relativeYearly" rule [("month", .num month)]

def daily (rule : RecurrenceRule) : Except GraphError Json :=
  if rule.byDay.isEmpty then .ok (.obj [("type", .str "daily")])
  else unsupported "a daily rule that names weekdays (Graph has no daily BYDAY)"

/-- The weekdays of a weekly rule; without `BYDAY`, the start's. -/
def weeklyDays (rule : RecurrenceRule) (start : Date) : List Weekday :=
  if rule.byDay.isEmpty then [weekdayOf start] else rule.byDay.map (·.day)

def weekly (rule : RecurrenceRule) (start : Date) : Except GraphError Json :=
  if rule.byDay.any (·.nthOfPeriod.isSome) then
    unsupported "an ordinal weekday on a weekly rule (Graph's weekly pattern has no index)"
  else .ok (.obj [("type", .str "weekly"), ("daysOfWeek", dayNames (weeklyDays rule start))])

def patternOf (rule : RecurrenceRule) (start : Date) : Except GraphError Json :=
  match rule.frequency with
  | .daily => daily rule
  | .weekly => weekly rule start
  | .monthly => monthly rule start
  | .yearly => yearly rule start
  | _ => unsupported "a sub-daily frequency (Graph's smallest pattern is daily)"

def renderPattern (rule : RecurrenceRule) (start : Date) : Except GraphError Json := do
  unsupportedParts rule
  let pattern ← patternOf rule start
  let pattern := pattern.set "interval" (.num rule.interval)
  return if rule.frequency = .weekly then
      pattern.set "firstDayOfWeek" (.str (weekdayName rule.firstDayOfWeek))
    else pattern

/-- Where the series starts and how it ends.  Of `UNTIL`, its day is kept. -/
def renderRange (rule : RecurrenceRule) (start : Date) : Json :=
  match rule.bound with
  | .unbounded => .obj [("type", .str "noEnd"), ("startDate", .str (isoDate start))]
  | .count n _ =>
    .obj [("type", .str "numbered"), ("startDate", .str (isoDate start)), ("numberOfOccurrences", .num n)]
  | .untilTime t =>
    .obj [("type", .str "endDate"), ("startDate", .str (isoDate start)), ("endDate", .str (isoDate t.date))]

def renderRecurrence (rule : RecurrenceRule) (start : Date) : Except GraphError Json := do
  let pattern ← renderPattern rule start
  return .obj [("pattern", pattern), ("range", renderRange rule start)]

/-! ## Parsing -/

def protocol {α : Type} (detail : String) : Except GraphError α := .error (.protocol detail)

def graphWeekday : String → Option Weekday
  | "monday" => some .mo
  | "tuesday" => some .tu
  | "wednesday" => some .we
  | "thursday" => some .th
  | "friday" => some .fr
  | "saturday" => some .sa
  | "sunday" => some .su
  | _ => none

def ndayOf (nth : Option Int) (hnth : nth ≠ some 0) (name : String) : Except GraphError NDay :=
  match graphWeekday name with
  | some day => .ok ⟨day, nth, hnth⟩
  | none => protocol ("unknown weekday " ++ name.quote)

def daysOfWeek (pattern : Json) (nth : Option Int) (hnth : nth ≠ some 0) : Except GraphError (List NDay) :=
  match (pattern.get "daysOfWeek").bind Json.asArray with
  | none => .ok []
  | some days => (days.filterMap Json.asStr).mapM (ndayOf nth hnth)

def indexNth (pattern : Json) : Option Int :=
  match pattern.optStr "index" with
  | some "first" => some 1
  | some "second" => some 2
  | some "third" => some 3
  | some "fourth" => some 4
  | some "last" => some (-1)
  | _ => none

theorem indexNth_ne_zero (pattern : Json) : indexNth pattern ≠ some 0 := by
  unfold indexNth
  split <;> decide

def readDayOfMonth (pattern : Json) : List Int :=
  match (pattern.get "dayOfMonth").bind Json.asI64 with
  | some day => if day ≠ 0 ∧ -(2 ^ 31) ≤ day ∧ day < 2 ^ 31 then [day] else []
  | none => []

def readMonth (pattern : Json) : List String :=
  match (pattern.get "month").bind Json.asU64 with
  | some month => if 1 ≤ month ∧ month ≤ 12 then [toString month] else []
  | none => []

def readPattern (pattern : Json) : Except GraphError RecurrenceRule :=
  match pattern.optStr "type" with
  | none => protocol "recurrence pattern has no type"
  | some "daily" => .ok (RecurrenceRule.new .daily)
  | some "weekly" => do
    let days ← daysOfWeek pattern none NDay.every_nonzero
    return { RecurrenceRule.new .weekly with byDay := days }
  | some "absoluteMonthly" => .ok { RecurrenceRule.new .monthly with byMonthDay := readDayOfMonth pattern }
  | some "relativeMonthly" => do
    let days ← daysOfWeek pattern (indexNth pattern) (indexNth_ne_zero pattern)
    return { RecurrenceRule.new .monthly with byDay := days }
  | some "absoluteYearly" =>
    .ok { RecurrenceRule.new .yearly with byMonth := readMonth pattern, byMonthDay := readDayOfMonth pattern }
  | some "relativeYearly" => do
    let days ← daysOfWeek pattern (indexNth pattern) (indexNth_ne_zero pattern)
    return { RecurrenceRule.new .yearly with byMonth := readMonth pattern, byDay := days }
  | some other => protocol ("unknown recurrence pattern type " ++ other.quote)

/-- An interval that `u32` holds and that is not 0, or else one. -/
def readInterval (pattern : Json) (rule : RecurrenceRule) : RecurrenceRule :=
  match (pattern.get "interval").bind Json.asU64 with
  | some interval =>
    if h : 0 < interval ∧ interval < 2 ^ 32 then { rule with interval := interval, intervalPos := h.1 } else rule
  | none => rule

def readFirstDay (pattern : Json) (rule : RecurrenceRule) : RecurrenceRule :=
  match (pattern.optStr "firstDayOfWeek").bind graphWeekday with
  | some day => { rule with firstDayOfWeek := day }
  | none => rule

def readCount (range : Json) : Except GraphError RecurrenceBound :=
  match (range.get "numberOfOccurrences").bind Json.asU64 with
  | some n =>
    if h : 0 < n ∧ n < 2 ^ 32 then .ok (.count n h.1)
    else protocol "numbered range has no numberOfOccurrences"
  | none => protocol "numbered range has no numberOfOccurrences"

def readEnd (range : Json) : Except GraphError RecurrenceBound :=
  match range.optStr "endDate" with
  | none => protocol "endDate range has no endDate"
  | some last =>
    match parseWallClock (last ++ "T23:59:59") with
    | some t => .ok (.untilTime t)
    | none => protocol ("bad recurrence endDate " ++ last.quote)

def parseBound (range : Json) : Except GraphError RecurrenceBound :=
  match range.optStr "type" with
  | none | some "noEnd" => .ok .unbounded
  | some "numbered" => readCount range
  | some "endDate" => readEnd range
  | some other => protocol ("unknown recurrence range type " ++ other.quote)

def parseRule (pattern range : Json) : Except GraphError RecurrenceRule := do
  let rule ← readPattern pattern
  let rule := readFirstDay pattern (readInterval pattern rule)
  let bound ← parseBound range
  return { rule with bound := bound }

def parseRecurrence (recurrence : Json) : Except GraphError RecurrenceRule :=
  match recurrence.get "pattern" with
  | none => protocol "recurrence has no pattern"
  | some pattern =>
    match recurrence.get "range" with
    | none => protocol "recurrence has no range"
    | some range => parseRule pattern range

end Graph
end SyncEngine
