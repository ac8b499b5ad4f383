import SyncEngine.Clock.WallClock
import SyncEngine.Jmap.Walk
import SyncEngine.Library.Json

/-!
# A recurrence rule in JSCalendar

JMAP takes a rule as an object, with `count` and `until` for its bound, and with a field left out where it has the
default.  The engine's rule is written as such an object, and read from one.
-/

namespace SyncEngine
namespace Jmap

open Recurrence Json Clock

/-! ## Written -/

def frequencyName : Frequency → String
  | .yearly => "yearly"
  | .monthly => "monthly"
  | .weekly => "weekly"
  | .daily => "daily"
  | .hourly => "hourly"
  | .minutely => "minutely"
  | .secondly => "secondly"

def weekdayName : Weekday → String
  | .mo => "mo"
  | .tu => "tu"
  | .we => "we"
  | .th => "th"
  | .fr => "fr"
  | .sa => "sa"
  | .su => "su"

def nday (day : NDay) : Json :=
  .obj (present
    [("@type", some (.str "NDay")), ("day", some (.str (weekdayName day.day))), ("nthOfPeriod", day.nthOfPeriod.map .num)])

/-- A list with no entries is a part the rule does not have. -/
def ifAny (values : List Json) : Option Json := if values.isEmpty then none else some (.arr values)

def countOf : RecurrenceBound → Option Json
  | .count n _ => some (.num n)
  | _ => none

def untilOf : RecurrenceBound → Option Json
  | .untilTime local_ => some (.str (String.ofList (formatWallClock local_)))
  | _ => none

def fields (rule : RecurrenceRule) : List (String × Option Json) :=
  [("@type", some (.str "RecurrenceRule")),
    ("frequency", some (.str (frequencyName rule.frequency))),
    ("interval", if rule.interval ≠ 1 then some (.num rule.interval) else none),
    ("firstDayOfWeek", if rule.firstDayOfWeek ≠ .mo then some (.str (weekdayName rule.firstDayOfWeek)) else none),
    ("byDay", ifAny (rule.byDay.map nday)),
    ("byMonthDay", ifAny (rule.byMonthDay.map .num)),
    ("byMonth", ifAny (rule.byMonth.map .str)),
    ("byYearDay", ifAny (rule.byYearDay.map .num)),
    ("byWeekNo", ifAny (rule.byWeekNo.map .num)),
    ("byHour", ifAny (rule.byHour.map fun n : Nat => num n)),
    ("byMinute", ifAny (rule.byMinute.map fun n : Nat => num n)),
    ("bySecond", ifAny (rule.bySecond.map fun n : Nat => num n)),
    ("bySetPosition", ifAny (rule.bySetPosition.map .num)),
    ("count", countOf rule.bound),
    ("until", untilOf rule.bound)]

def written (rule : RecurrenceRule) : Json := .obj (present (fields rule))

def renderRule (rule : RecurrenceRule) : Except JmapError Json :=
  match rule.rscale with
  | some rscale =>
    .error (.protocol (s!"cannot write a non-Gregorian RSCALE={rscale} recurrence: the engine preserves " ++
      "such a rule but never expands it, so the series would store and draw nothing"))
  | none => .ok (written rule)

/-! ## Read -/

/-- What reading comes to: nothing where it panics. -/
abbrev Reading (α : Type) : Type := ExceptT JmapError Option α

/-- The name of a value without fields: a text, or an object with nothing under its one key. -/
def variantName : Json → Option String
  | .str name => some name
  | .obj [(name, .null)] => some name
  | _ => none

def frequencyOf : String → Option Frequency
  | "yearly" => some .yearly
  | "monthly" => some .monthly
  | "weekly" => some .weekly
  | "daily" => some .daily
  | "hourly" => some .hourly
  | "minutely" => some .minutely
  | "secondly" => some .secondly
  | _ => none

def weekdayOf : String → Option Weekday
  | "mo" => some .mo
  | "tu" => some .tu
  | "we" => some .we
  | "th" => some .th
  | "fr" => some .fr
  | "sa" => some .sa
  | "su" => some .su
  | _ => none

def skipOf : String → Option RecurrenceSkip
  | "omit" => some .omit
  | "backward" => some .backward
  | "forward" => some .forward
  | _ => none

/-- What `u32`, `u8` and `i32` hold of a number. -/
def u32 (n : Nat) : Option Nat := if n < 2 ^ 32 then some n else none

def u8 (n : Nat) : Option Nat := if n < 2 ^ 8 then some n else none

def i32 (n : Int) : Option Int := if -2 ^ 31 ≤ n ∧ n < 2 ^ 31 then some n else none

def nonZero (n : Nat) : Option { n : Nat // 0 < n } := if h : 0 < n then some ⟨n, h⟩ else none

/-- An ordinal of zero is none. -/
def ndayOf (day : Weekday) : Option Int → NDay
  | some n => if h : n ≠ 0 then ⟨day, some n, NDay.nth_nonzero h⟩ else ⟨day, none, NDay.every_nonzero⟩
  | none => ⟨day, none, NDay.every_nonzero⟩

section Read

-- The deserializer's own words for a value it does not take.
variable (refusal : Json → String)

def decoded {α : Type} (named : String → Option α) (what : String) : Option Json → Reading (Option α)
  | none => pure none
  | some value =>
    match (variantName value).bind named with
    | some a => pure (some a)
    | none => throw (.protocol ("bad " ++ what ++ ": " ++ refusal value))

/-- One entry of `byDay`. -/
def parseNday (entry : Json) : Reading NDay := do
  match ← decoded refusal weekdayOf "byDay day" (entry.get "day") with
  | none => throw (.protocol "byDay entry has no day")
  | some day => return ndayOf day (((entry.get "nthOfPeriod").bind asI64).bind i32)

def array (value : Json) (key : String) : List Json := ((value.get key).bind asArray).getD []

def intList (value : Json) (key : String) : List Int := ((array value key).filterMap asI64).filterMap i32

def uintList (value : Json) (key : String) : List Nat := ((array value key).filterMap asU64).filterMap u8

def strList (value : Json) (key : String) : List String := (array value key).filterMap asStr

/-- A number above zero that `u32` holds. -/
def positive (value : Json) (key : String) : Option { n : Nat // 0 < n } :=
  (((value.get key).bind asU64).bind u32).bind nonZero

def parseLocal (value : Json) : Reading LocalDateTime :=
  let bad := JmapError.protocol ("bad until: " ++ refusal value)
  match value with
  | .str text => ExceptT.mk ((parseWallClock text.toList).run.map (·.mapError fun _ => bad))
  | _ => throw bad

theorem count_pos (count : { n : Nat // 0 < n }) : 0 < count.1 := count.2

/-- A count goes before an end. -/
def parseBound (rule : Json) : Reading RecurrenceBound :=
  match positive rule "count" with
  | some count => return .count count.1 (count_pos count)
  | none =>
    match rule.get "until" with
    | some value => return .untilTime (← parseLocal refusal value)
    | none => return .unbounded

def parseRule (rule : Json) : Reading RecurrenceRule := do
  match ← decoded refusal frequencyOf "frequency" (rule.get "frequency") with
  | none => throw (.protocol "recurrence rule has no frequency")
  | some frequency =>
    let interval : { n : Nat // 0 < n } := (positive rule "interval").getD ⟨1, Nat.one_pos⟩
    let byDay ← (array rule "byDay").mapM (parseNday refusal)
    let skip ← decoded refusal skipOf "skip" (rule.get "skip")
    let firstDayOfWeek ← decoded refusal weekdayOf "firstDayOfWeek" (rule.get "firstDayOfWeek")
    let bound ← parseBound refusal rule
    return {
      frequency
      interval := interval.1
      rscale := (rule.optStr "rscale").map String.toLower
      skip := skip.getD .omit
      firstDayOfWeek := firstDayOfWeek.getD .mo
      byDay
      byMonthDay := intList rule "byMonthDay"
      byMonth := strList rule "byMonth"
      byYearDay := intList rule "byYearDay"
      byWeekNo := intList rule "byWeekNo"
      byHour := uintList rule "byHour"
      byMinute := uintList rule "byMinute"
      bySecond := uintList rule "bySecond"
      bySetPosition := intList rule "bySetPosition"
      bound
      intervalPos := interval.2 }

end Read

/-! ## The fields read back -/

/-- A rule as the engine holds one, every number in the range of its type. -/
structure Rule where
  rule : RecurrenceRule
  interval : rule.interval < 2 ^ 32
  count : ∀ n pos, rule.bound = .count n pos → n < 2 ^ 32
  byDay : ∀ day ∈ rule.byDay, ∀ nth ∈ day.nthOfPeriod, -2 ^ 31 ≤ nth ∧ nth < 2 ^ 31
  byMonthDay : ∀ n ∈ rule.byMonthDay, -2 ^ 31 ≤ n ∧ n < 2 ^ 31
  byYearDay : ∀ n ∈ rule.byYearDay, -2 ^ 31 ≤ n ∧ n < 2 ^ 31
  byWeekNo : ∀ n ∈ rule.byWeekNo, -2 ^ 31 ≤ n ∧ n < 2 ^ 31
  bySetPosition : ∀ n ∈ rule.bySetPosition, -2 ^ 31 ≤ n ∧ n < 2 ^ 31
  byHour : ∀ n ∈ rule.byHour, n < 2 ^ 8
  byMinute : ∀ n ∈ rule.byMinute, n < 2 ^ 8
  bySecond : ∀ n ∈ rule.bySecond, n < 2 ^ 8

section Fields

variable {rule : RecurrenceRule} {refusal : Json → String} {key : String}

theorem get_written (key : String) : (written rule).get key = ((fields rule).lookup key).join := by
  have hnames : (fields rule).map Prod.fst = ["@type", "frequency", "interval", "firstDayOfWeek", "byDay", "byMonthDay",
    "byMonth", "byYearDay", "byWeekNo", "byHour", "byMinute", "bySecond", "bySetPosition", "count", "until"] := rfl
  apply get_obj_present
  rw [hnames]
  decide

theorem array_written {values : List Json} (h : (fields rule).lookup key = some (ifAny values)) :
    array (written rule) key = values := by
  unfold array
  rw [get_written, h]
  unfold ifAny
  cases values with
  | nil => rfl
  | cons value values => rfl

theorem i32_of_mem {values : List Int} (h : ∀ n ∈ values, -2 ^ 31 ≤ n ∧ n < 2 ^ 31) :
    ((values.map num).filterMap asI64).filterMap i32 = values := by
  induction values with
  | nil => rfl
  | cons n values ih =>
    have hn := h n List.mem_cons_self
    have hrest := ih fun m hm => h m (List.mem_cons_of_mem n hm)
    have h64 : asI64 (.num n) = some n := if_pos (by omega)
    have h32 : i32 n = some n := if_pos hn
    rw [List.map_cons, List.filterMap_cons_some h64, List.filterMap_cons_some h32, hrest]

theorem u8_of_mem {values : List Nat} (h : ∀ n ∈ values, n < 2 ^ 8) :
    ((values.map fun n : Nat => num n).filterMap asU64).filterMap u8 = values := by
  induction values with
  | nil => rfl
  | cons n values ih =>
    have hn := h n List.mem_cons_self
    have hrest := ih fun m hm => h m (List.mem_cons_of_mem n hm)
    have h64 : asU64 (.num n) = some n := asU64_num (by omega)
    have h8 : u8 n = some n := if_pos hn
    rw [List.map_cons, List.filterMap_cons_some h64, List.filterMap_cons_some h8, hrest]

theorem asStr_map (values : List String) : (values.map str).filterMap asStr = values := by
  induction values with
  | nil => rfl
  | cons value values ih =>
    have hvalue : asStr (.str value) = some value := rfl
    rw [List.map_cons, List.filterMap_cons_some hvalue, ih]

theorem intList_written {values : List Int} (h : ∀ n ∈ values, -2 ^ 31 ≤ n ∧ n < 2 ^ 31)
    (hkey : (fields rule).lookup key = some (ifAny (values.map .num))) : intList (written rule) key = values := by
  unfold intList
  rw [array_written hkey, i32_of_mem h]

theorem uintList_written {values : List Nat} (h : ∀ n ∈ values, n < 2 ^ 8)
    (hkey : (fields rule).lookup key = some (ifAny (values.map fun n : Nat => num n))) :
    uintList (written rule) key = values := by
  unfold uintList
  rw [array_written hkey, u8_of_mem h]

theorem strList_written {values : List String} (hkey : (fields rule).lookup key = some (ifAny (values.map .str))) :
    strList (written rule) key = values := by
  unfold strList
  rw [array_written hkey, asStr_map]

theorem frequencyOf_name (f : Frequency) : frequencyOf (frequencyName f) = some f := by
  cases f <;> rfl

theorem weekdayOf_name (day : Weekday) : weekdayOf (weekdayName day) = some day := by
  cases day <;> rfl

theorem decoded_str {α : Type} {named : String → Option α} {what name : String} {a : α} (h : named name = some a) :
    decoded refusal named what (some (.str name)) = pure (some a) := by
  unfold decoded
  show (match named name with
    | some a => (pure (some a) : Reading (Option α))
    | none => throw (JmapError.protocol ("bad " ++ what ++ ": " ++ refusal (.str name)))) = _
  rw [h]

theorem positive_num {value : Json} {n : Nat} (hpos : 0 < n) (h : n < 2 ^ 32) (hkey : value.get key = some (.num n)) :
    positive value key = some ⟨n, hpos⟩ := by
  have h64 : asU64 (.num n) = some n := asU64_num (by omega)
  have h32 : u32 n = some n := if_pos h
  unfold positive
  rw [hkey, Option.bind_some, h64, Option.bind_some, h32, Option.bind_some]
  exact dif_pos hpos

theorem parseNday_nday {day : NDay} (h : ∀ nth ∈ day.nthOfPeriod, -2 ^ 31 ≤ nth ∧ nth < 2 ^ 31) :
    parseNday refusal (nday day) = pure day := by
  have hget : ∀ key, (nday day).get key = ([("@type", some (.str "NDay")), ("day", some (.str (weekdayName day.day))),
      ("nthOfPeriod", day.nthOfPeriod.map num)].lookup key).join := by
    intro key
    apply get_obj_present
    show ["@type", "day", "nthOfPeriod"].Nodup
    decide
  have hday : (nday day).get "day" = some (.str (weekdayName day.day)) := hget "day"
  have hnth : (nday day).get "nthOfPeriod" = day.nthOfPeriod.map num := hget "nthOfPeriod"
  unfold parseNday
  rw [hday, hnth, decoded_str (weekdayOf_name day.day), pure_bind]
  obtain ⟨weekday, nth, hnonzero⟩ := day
  cases nth with
  | none => rfl
  | some n =>
    have hn := h n rfl
    have h64 : asI64 (.num n) = some n := if_pos (by omega)
    have h32 : i32 n = some n := if_pos hn
    have hne : n ≠ 0 := by simpa using hnonzero
    show pure (ndayOf weekday ((asI64 (.num n)).bind i32)) = _
    rw [h64, Option.bind_some, h32]
    exact congrArg pure (dif_pos hne)

theorem mapM_parseNday {days : List NDay} (h : ∀ day ∈ days, ∀ nth ∈ day.nthOfPeriod, -2 ^ 31 ≤ nth ∧ nth < 2 ^ 31) :
    (days.map nday).mapM (parseNday refusal) = pure days := by
  induction days with
  | nil => rfl
  | cons day days ih =>
    rw [List.map_cons, List.mapM_cons, parseNday_nday (h day List.mem_cons_self), pure_bind,
      ih fun d hd => h d (List.mem_cons_of_mem day hd), pure_bind]

end Fields

/-! ## The rule read back -/

section RoundTrip

variable {r : Rule} {refusal : Json → String}

/-- What reading gives, where it neither panics nor refuses. -/
def Reads {α : Type} (p : Reading α) (a : α) : Prop := p.run = some (.ok a)

theorem reads_map {α β : Type} {p : Reading α} {f : α → β} {b : β} : Reads (f <$> p) b ↔ ∃ a, Reads p a ∧ f a = b := by
  unfold Reads
  rw [ExceptT.run_map]
  cases hp : p.run with
  | none => simp
  | some result =>
    cases result with
    | error e => simp [Except.map]
    | ok a => simp [Except.map]

theorem reads_parseLocal (t : LocalDateTime) :
    Reads (parseLocal refusal (.str (String.ofList (formatWallClock t)))) t ↔ 0 ≤ t.date.year := by
  have hrun : Reads (parseLocal refusal (.str (String.ofList (formatWallClock t)))) t ↔
      Gives (parseWallClock (formatWallClock t)) t := by
    unfold Reads parseLocal Gives
    show (parseWallClock (String.ofList (formatWallClock t)).toList).run.map _ = _ ↔ _
    rw [String.toList_ofList]
    cases (parseWallClock (formatWallClock t)).run with
    | none => simp
    | some result =>
      cases result with
      | error e => simp [Except.mapError]
      | ok t' => simp [Except.mapError]
  rw [hrun]
  exact ⟨year_of_gives, gives_parse_formatWallClock⟩

theorem parseBound_written (r : Rule) : Reads (parseBound refusal (written r.rule)) r.rule.bound ↔
    ∀ t, r.rule.bound = .untilTime t → 0 ≤ t.date.year := by
  have hcount : (written r.rule).get "count" = countOf r.rule.bound := get_written "count"
  have huntil : (written r.rule).get "until" = untilOf r.rule.bound := get_written "until"
  cases hbound : r.rule.bound with
  | unbounded =>
    rw [hbound] at hcount huntil
    have hnone : positive (written r.rule) "count" = none := by
      unfold positive
      rw [hcount]
      rfl
    unfold parseBound
    rw [hnone, huntil]
    exact ⟨fun _ _ h => (nomatch h), fun _ => rfl⟩
  | count n pos =>
    rw [hbound] at hcount
    have hsome := positive_num pos (r.count n pos hbound) hcount
    unfold parseBound
    rw [hsome]
    exact ⟨fun _ _ h => (nomatch h), fun _ => rfl⟩
  | untilTime t =>
    rw [hbound] at hcount huntil
    have hnone : positive (written r.rule) "count" = none := by
      unfold positive
      rw [hcount]
      rfl
    have hparse : parseBound refusal (written r.rule) =
        RecurrenceBound.untilTime <$> parseLocal refusal (.str (String.ofList (formatWallClock t))) := by
      unfold parseBound
      rw [hnone, huntil]
      exact (map_eq_pure_bind _ _).symm
    rw [hparse, reads_map]
    constructor
    · rintro ⟨t', hreads, heq⟩ t'' ht''
      obtain rfl := RecurrenceBound.untilTime.inj heq
      obtain rfl := RecurrenceBound.untilTime.inj ht''
      exact (reads_parseLocal t').mp hreads
    · intro h
      exact ⟨t, (reads_parseLocal t).mpr (h t rfl), rfl⟩

/-- The rule as the object says it, whatever its bound. -/
def readBack (rule : RecurrenceRule) (bound : RecurrenceBound) : RecurrenceRule :=
  { rule with rscale := none, skip := .omit, bound := bound }

theorem parseRule_written (r : Rule) :
    parseRule refusal (written r.rule) = readBack r.rule <$> parseBound refusal (written r.rule) := by
  have hfrequency : (written r.rule).get "frequency" = some (.str (frequencyName r.rule.frequency)) := get_written _
  have hskip : (written r.rule).get "skip" = none := get_written _
  have hrscale : (written r.rule).get "rscale" = none := get_written _
  have hinterval : (positive (written r.rule) "interval").getD ⟨1, by decide⟩ = ⟨r.rule.interval, r.rule.intervalPos⟩ := by
    have hget : (written r.rule).get "interval" = if r.rule.interval ≠ 1 then some (.num r.rule.interval) else none :=
      get_written _
    by_cases hone : r.rule.interval = 1
    · rw [if_neg (not_not_intro hone)] at hget
      unfold positive
      rw [hget]
      exact Subtype.ext hone.symm
    · rw [if_pos hone] at hget
      rw [positive_num r.rule.intervalPos r.interval hget]
      rfl
  have hfirst : decoded refusal weekdayOf "firstDayOfWeek" ((written r.rule).get "firstDayOfWeek") =
      pure (if r.rule.firstDayOfWeek = .mo then none else some r.rule.firstDayOfWeek) := by
    have hget : (written r.rule).get "firstDayOfWeek" =
        if r.rule.firstDayOfWeek ≠ .mo then some (.str (weekdayName r.rule.firstDayOfWeek)) else none := get_written _
    by_cases hmo : r.rule.firstDayOfWeek = .mo
    · rw [hget, if_neg (not_not_intro hmo), if_pos hmo]
      rfl
    · rw [hget, if_pos hmo, if_neg hmo, decoded_str (weekdayOf_name _)]
  have hfirst' : (if r.rule.firstDayOfWeek = .mo then none else some r.rule.firstDayOfWeek).getD .mo =
      r.rule.firstDayOfWeek := by
    by_cases hmo : r.rule.firstDayOfWeek = .mo
    · rw [if_pos hmo, hmo]
      rfl
    · rw [if_neg hmo]
      rfl
  have hbyDay : (array (written r.rule) "byDay").mapM (parseNday refusal) = pure r.rule.byDay := by
    rw [array_written rfl, mapM_parseNday r.byDay]
  have hmonthDay : intList (written r.rule) "byMonthDay" = r.rule.byMonthDay := intList_written r.byMonthDay rfl
  have hmonth : strList (written r.rule) "byMonth" = r.rule.byMonth := strList_written rfl
  have hyearDay : intList (written r.rule) "byYearDay" = r.rule.byYearDay := intList_written r.byYearDay rfl
  have hweekNo : intList (written r.rule) "byWeekNo" = r.rule.byWeekNo := intList_written r.byWeekNo rfl
  have hhour : uintList (written r.rule) "byHour" = r.rule.byHour := uintList_written r.byHour rfl
  have hminute : uintList (written r.rule) "byMinute" = r.rule.byMinute := uintList_written r.byMinute rfl
  have hsecond : uintList (written r.rule) "bySecond" = r.rule.bySecond := uintList_written r.bySecond rfl
  have hsetPosition : intList (written r.rule) "bySetPosition" = r.rule.bySetPosition :=
    intList_written r.bySetPosition rfl
  have hskip' : decoded refusal skipOf "skip" none = pure none := rfl
  have hoptStr : (written r.rule).optStr "rscale" = none := by
    unfold optStr
    rw [hrscale]
    rfl
  unfold parseRule
  rw [hfrequency, decoded_str (frequencyOf_name r.rule.frequency), pure_bind]
  simp only [hbyDay, hskip, hskip', hfirst, pure_bind]
  simp only [hinterval, hfirst', hmonthDay, hmonth, hyearDay, hweekNo, hhour, hminute, hsecond, hsetPosition, hoptStr]
  exact (map_eq_pure_bind _ _).symm

/-- A rule that is written is read back where it skips no other way than by omission, and where the text of its end is
one that is read. -/
theorem parseRule_renderRule_iff (r : Rule) {out : Json} (hwritten : renderRule r.rule = .ok out) :
    Reads (parseRule refusal out) r.rule ↔ r.rule.skip = .omit ∧ ∀ t, r.rule.bound = .untilTime t → 0 ≤ t.date.year := by
  obtain ⟨hrscale, rfl⟩ : r.rule.rscale = none ∧ written r.rule = out := by
    unfold renderRule at hwritten
    cases hrscale : r.rule.rscale with
    | none =>
      rw [hrscale] at hwritten
      exact ⟨rfl, Except.ok.inj hwritten⟩
    | some rscale =>
      rw [hrscale] at hwritten
      exact nomatch hwritten
  rw [parseRule_written, reads_map, ← parseBound_written]
  constructor
  · rintro ⟨bound, hreads, heq⟩
    have hskip : RecurrenceSkip.omit = r.rule.skip := congrArg RecurrenceRule.skip heq
    have hbound : bound = r.rule.bound := congrArg RecurrenceRule.bound heq
    exact ⟨hskip.symm, hbound ▸ hreads⟩
  · rintro ⟨hskip, hreads⟩
    refine ⟨_, hreads, ?_⟩
    unfold readBack
    rw [← hrscale, ← hskip]

def thirtieths (skip : RecurrenceSkip) : Rule where
  rule := { RecurrenceRule.new .monthly with byMonthDay := [30], skip }
  interval := show 1 < 2 ^ 32 by decide
  count := fun _ _ h => nomatch h
  byDay := fun _ h => nomatch h
  byMonthDay := show ∀ n ∈ [(30 : Int)], -2 ^ 31 ≤ n ∧ n < 2 ^ 31 by decide
  byYearDay := fun _ h => nomatch h
  byWeekNo := fun _ h => nomatch h
  bySetPosition := fun _ h => nomatch h
  byHour := fun _ h => nomatch h
  byMinute := fun _ h => nomatch h
  bySecond := fun _ h => nomatch h

theorem parseRule_renderRule_omit :
    Reads (parseRule (fun _ => "") (written (thirtieths .omit).rule)) (thirtieths .omit).rule :=
  (parseRule_renderRule_iff (thirtieths .omit) rfl).mpr ⟨rfl, fun _ h => nomatch h⟩

/-- Moved to the day before, the thirtieth of February comes back as left out. -/
theorem parseRule_renderRule_backward : ¬ ∀ (refusal : Json → String) (r : Rule) (out : Json),
    renderRule r.rule = .ok out → Reads (parseRule refusal out) r.rule := by
  intro h
  have hreads := h (fun _ => "") (thirtieths .backward) _ rfl
  rw [parseRule_written, reads_map] at hreads
  obtain ⟨bound, -, heq⟩ := hreads
  have hskip : RecurrenceSkip.omit = .backward := congrArg RecurrenceRule.skip heq
  exact nomatch hskip

end RoundTrip

end Jmap
end SyncEngine
