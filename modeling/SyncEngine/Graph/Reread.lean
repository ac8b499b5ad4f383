import Mathlib
import SyncEngine.Graph.Recurrence
import SyncEngine.Recurrence.Excluded

/-!
# A rendered rule read back

Reading a rendered rule back gives the rule Graph keeps: the frequency and its interval, the weekdays or the day
of the month named outright, and the last day.
-/

namespace SyncEngine
namespace Graph

open Json

open Recurrence Fallible

variable {rule : RecurrenceRule} {start : Date}

/-- What `u32` and `i32` hold of a rule. -/
structure Sized (rule : RecurrenceRule) : Prop where
  interval : rule.interval < 2 ^ 32
  count : ∀ n pos, rule.bound = .count n pos → n < 2 ^ 32
  byMonthDay : ∀ md ∈ rule.byMonthDay, -(2 ^ 31) ≤ md ∧ md < 2 ^ 31

/-! ## Dates as text -/

theorem date_bounds (d : Date) : 1 ≤ d.month ∧ d.month ≤ 12 ∧ 1 ≤ d.day ∧ d.day ≤ 31 := by
  obtain ⟨hm₁, hm₂, hd₁, hd₂⟩ := d.isDate
  have hlength := (Civil.monthLength_bounds d.year d.month).2
  exact ⟨hm₁, hm₂, hd₁, by omega⟩

theorem lastSecond_valid : 23 < 24 ∧ 59 < 60 ∧ 59 < 60 ∧ 0 < 1000000000 := by decide

def lastSecond : Time := ⟨23, 59, 59, 0, lastSecond_valid⟩

variable {n : Nat} {d : Date}

theorem isoDate_toList (time : String) : (isoDate d ++ time).toList = Clock.formatDate d ++ time.toList := by
  unfold isoDate
  rw [String.toList_append, String.toList_ofList]

theorem parseWallClock_isoDate (h : 0 ≤ d.year) : parseWallClock (isoDate d ++ "T23:59:59") = some ⟨d, lastSecond⟩ := by
  have hgives : (Clock.parseWallClock (Clock.formatWallClock ⟨d, lastSecond⟩)).run = some (.ok ⟨d, lastSecond⟩) :=
    Clock.gives_parse_formatWallClock h
  have hclock : 'T' :: (Clock.formatClock lastSecond ++ Clock.formatFraction lastSecond.nanosecond) =
      "T23:59:59".toList := by decide
  have htext : Clock.formatWallClock ⟨d, lastSecond⟩ = Clock.formatDate d ++ "T23:59:59".toList :=
    congrArg (Clock.formatDate d ++ ·) hclock
  unfold parseWallClock
  rw [isoDate_toList, ← htext, hgives]
  rfl

theorem parseWallClock_isoDate_of_neg (h : d.year < 0) : parseWallClock (isoDate d ++ "T23:59:59") = none := by
  cases hread : parseWallClock (isoDate d ++ "T23:59:59") with
  | none => rfl
  | some wall =>
    unfold parseWallClock at hread
    rw [isoDate_toList] at hread
    have hgives := Clock.gives_of_toOption hread
    unfold Clock.formatDate zeroPaddedInt at hgives
    rw [if_pos h] at hgives
    exact absurd rfl (Clock.ne_sign_of_gives hgives)

/-! ## The rule Graph keeps -/

def keptDays (rule : RecurrenceRule) (start : Date) : List NDay :=
  match rule.frequency with
  | .weekly => (weeklyDays rule start).map fun day => ⟨day, none, NDay.every_nonzero⟩
  | _ => rule.byDay

/-- The day of the month as the pattern names it, where it does not name weekdays. -/
def keptMonthDay (rule : RecurrenceRule) (start : Date) : List Int :=
  match rule.frequency with
  | .monthly | .yearly =>
    if rule.byDay.isEmpty then if rule.byMonthDay.isEmpty then [(start.day : Int)] else rule.byMonthDay else []
  | _ => []

def keptMonth (rule : RecurrenceRule) (start : Date) (months : Option (List Nat)) : List String :=
  match rule.frequency with
  | .yearly => (months.getD [start.month]).map toString
  | _ => []

/-- The end of the last day. -/
def keptBound : RecurrenceBound → RecurrenceBound
  | .untilTime t => .untilTime ⟨t.date, lastSecond⟩
  | bound => bound

/-- The rule Graph keeps of a rule whose `BYMONTH` names these months. -/
def kept (rule : RecurrenceRule) (start : Date) (months : Option (List Nat)) : RecurrenceRule :=
  { RecurrenceRule.new rule.frequency with
    interval := rule.interval
    intervalPos := rule.intervalPos
    firstDayOfWeek := if rule.frequency = .weekly then rule.firstDayOfWeek else .mo
    byDay := keptDays rule start
    byMonthDay := keptMonthDay rule start
    byMonth := keptMonth rule start months
    bound := keptBound rule.bound }

/-- `UNTIL` lies in a year that is written with four digits. -/
def UntilWritten (rule : RecurrenceRule) : Prop := ∀ t, rule.bound = .untilTime t → 0 ≤ t.date.year

variable {range : Json}

theorem parseBound_numbered (htype : range.optStr "type" = some "numbered") : parseBound range = readCount range := by
  simp only [parseBound, htype]

theorem readCount_ok (h : range.get "numberOfOccurrences" = some (.num n)) (pos : 0 < n)
    (hlt : n < 2 ^ 32) : readCount range = .ok (.count n pos) := by
  have hu64 := Json.asU64_num (lt_trans hlt (by decide : 2 ^ 32 < 2 ^ 64))
  unfold readCount
  rw [h, Option.bind_some, hu64]
  exact dif_pos ⟨pos, hlt⟩

theorem parseBound_endDate {last : String} (htype : range.optStr "type" = some "endDate")
    (h : range.optStr "endDate" = some last) :
    parseBound range = (parseWallClock (last ++ "T23:59:59")).elim (protocol ("bad recurrence endDate " ++ last.quote))
      fun t => .ok (.untilTime t) := by
  simp only [parseBound, htype, readEnd, h]
  cases parseWallClock (last ++ "T23:59:59") with
  | none => rfl
  | some t => rfl

theorem renderRange_untilTime {t : LocalDateTime} (h : rule.bound = .untilTime t) :
    (renderRange rule start).optStr "type" = some "endDate" ∧
      (renderRange rule start).optStr "endDate" = some (isoDate t.date) := by
  unfold renderRange
  rw [h]
  constructor
  · simp [Json.optStr, Json.asStr]
  · simp [Json.optStr, get_obj_cons_of_ne, Json.asStr]

theorem parseBound_renderRange (hsized : Sized rule) (hwritten : UntilWritten rule) :
    parseBound (renderRange rule start) = .ok (keptBound rule.bound) := by
  have hcount := hsized.count
  unfold UntilWritten at hwritten
  cases hbound : rule.bound with
  | unbounded =>
    unfold renderRange
    rw [hbound]
    rfl
  | count n pos =>
    unfold renderRange
    rw [hbound]
    rw [parseBound_numbered (by simp [Json.optStr, Json.asStr])]
    exact readCount_ok (by simp [get_obj_cons_of_ne]) pos (hcount n pos hbound)
  | untilTime t =>
    obtain ⟨htype, hlast⟩ := @renderRange_untilTime rule start t hbound
    rw [parseBound_endDate htype hlast, parseWallClock_isoDate (hwritten t hbound)]
    rfl

theorem parseBound_of_not_written (hnot : ¬UntilWritten rule) (bound : RecurrenceBound) :
    parseBound (renderRange rule start) ≠ .ok bound := by
  unfold UntilWritten at hnot
  simp only [not_forall] at hnot
  obtain ⟨t, hbound, hneg⟩ := hnot
  obtain ⟨htype, hlast⟩ := @renderRange_untilTime rule start t hbound
  rw [parseBound_endDate htype hlast, parseWallClock_isoDate_of_neg (by omega)]
  exact fun h => nomatch h

theorem graphWeekday_weekdayName (day : Weekday) : graphWeekday (weekdayName day) = some day := by
  cases day <;> rfl

variable {pattern : Json}

theorem daysOfWeek_dayNames {days : List Weekday} {nth : Option Int} {hnth : nth ≠ some 0}
    (h : pattern.get "daysOfWeek" = some (dayNames days)) :
    daysOfWeek pattern nth hnth = .ok (days.map fun day => ⟨day, nth, hnth⟩) := by
  have hnames : (days.map fun day => Json.str (weekdayName day)).filterMap Json.asStr = days.map weekdayName := by
    rw [List.filterMap_map]
    exact congrFun List.filterMap_eq_map' days
  have hall : ∀ days : List Weekday, (days.map weekdayName).mapM (ndayOf nth hnth) =
      .ok (days.map fun day => ⟨day, nth, hnth⟩) := by
    intro days
    induction days with
    | nil => rfl
    | cons day days ih =>
      rw [List.map_cons, List.mapM_cons, ih]
      simp [ndayOf, graphWeekday_weekdayName, bind, Except.bind, pure, Except.pure]
  unfold daysOfWeek
  rw [h]
  show ((days.map fun day => Json.str (weekdayName day)).filterMap Json.asStr).mapM (ndayOf nth hnth) = _
  rw [hnames, hall]

variable {nth : Int}

theorem sharedOrdinal_spec {days : List NDay} (h : sharedOrdinal days = .ok nth) :
    ∀ nd ∈ days, nd.nthOfPeriod = some nth := by
  unfold sharedOrdinal at h
  split at h
  · exact nomatch h
  · split at h
    · exact nomatch h
    · rename_i hall
      obtain rfl := Except.ok.inj h
      intro nd hnd
      by_contra hne
      exact hall (List.any_eq_true.mpr ⟨nd, hnd, bne_iff_ne.mpr hne⟩)

theorem indexNth_indexName {index : String} (hname : indexName nth = .ok index)
    (h : pattern.optStr "index" = some index) : indexNth pattern = some nth := by
  unfold indexName at hname
  unfold indexNth
  split_ifs at hname with h₁ h₂ h₃ h₄ h₅
  all_goals
    first
    | (obtain rfl := Except.ok.inj hname; rw [h]; simp_all)
    | exact nomatch hname

/-! ## Patterns -/

section Patterns

variable {pattern : Json} {days : List Weekday} {nth day : Int} {month : Nat}

theorem readPattern_daily (htype : pattern.optStr "type" = some "daily") :
    readPattern pattern = .ok (RecurrenceRule.new .daily) := by
  rw [readPattern, htype]
  rfl

theorem readPattern_weekly (htype : pattern.optStr "type" = some "weekly")
    (hdays : pattern.get "daysOfWeek" = some (dayNames days)) :
    readPattern pattern =
      .ok { RecurrenceRule.new .weekly with byDay := days.map fun day => ⟨day, none, by decide⟩ } := by
  rw [readPattern, htype, daysOfWeek_dayNames hdays]
  rfl

theorem readPattern_absoluteMonthly (htype : pattern.optStr "type" = some "absoluteMonthly") :
    readPattern pattern = .ok { RecurrenceRule.new .monthly with byMonthDay := readDayOfMonth pattern } := by
  rw [readPattern, htype]
  rfl

theorem readPattern_absoluteYearly (htype : pattern.optStr "type" = some "absoluteYearly") :
    readPattern pattern = .ok { RecurrenceRule.new .yearly with
      byMonth := readMonth pattern, byMonthDay := readDayOfMonth pattern } := by
  rw [readPattern, htype]
  rfl

theorem daysOfWeek_relative (hdays : pattern.get "daysOfWeek" = some (dayNames (rule.byDay.map (·.day))))
    (hnth : ∀ nd ∈ rule.byDay, nd.nthOfPeriod = some nth) (hindex : indexNth pattern = some nth) :
    daysOfWeek pattern (indexNth pattern) (indexNth_ne_zero pattern) = .ok rule.byDay := by
  rw [daysOfWeek_dayNames hdays, List.map_map]
  congr 1
  refine (List.map_congr_left ?_).trans (List.map_id _)
  intro nd hnd
  obtain ⟨day, ordinal, nonzero⟩ := nd
  have hsome := hnth _ hnd
  simp only at hsome
  simp only [Function.comp, hindex, hsome, id]

theorem readPattern_relativeMonthly (htype : pattern.optStr "type" = some "relativeMonthly")
    (hdays : pattern.get "daysOfWeek" = some (dayNames (rule.byDay.map (·.day))))
    (hnth : ∀ nd ∈ rule.byDay, nd.nthOfPeriod = some nth) (hindex : indexNth pattern = some nth) :
    readPattern pattern = .ok { RecurrenceRule.new .monthly with byDay := rule.byDay } := by
  rw [readPattern, htype, daysOfWeek_relative hdays hnth hindex]
  rfl

theorem readPattern_relativeYearly (htype : pattern.optStr "type" = some "relativeYearly")
    (hdays : pattern.get "daysOfWeek" = some (dayNames (rule.byDay.map (·.day))))
    (hnth : ∀ nd ∈ rule.byDay, nd.nthOfPeriod = some nth) (hindex : indexNth pattern = some nth) :
    readPattern pattern = .ok { RecurrenceRule.new .yearly with byMonth := readMonth pattern, byDay := rule.byDay } := by
  rw [readPattern, htype, daysOfWeek_relative hdays hnth hindex]
  rfl

theorem readDayOfMonth_eq (h : pattern.get "dayOfMonth" = some (.num day)) (hpos : 0 < day) (hlt : day < 2 ^ 31) :
    readDayOfMonth pattern = [day] := by
  have hi64 : Json.asI64 (.num day) = some day := by
    unfold Json.asI64
    dsimp only
    rw [if_pos (by omega)]
  unfold readDayOfMonth
  rw [h, Option.bind_some, hi64]
  exact if_pos (by omega)

theorem readMonth_eq (h : pattern.get "month" = some (.num month)) (hmonth : 1 ≤ month ∧ month ≤ 12) :
    readMonth pattern = [toString month] := by
  have hu64 := Json.asU64_num (by omega : month < 2 ^ 64)
  unfold readMonth
  rw [h, Option.bind_some, hu64]
  exact if_pos hmonth

theorem dayOfMonth_spec (hsized : Sized rule) (h : dayOfMonth rule start = .ok day) :
    [day] = (if rule.byMonthDay.isEmpty then [(start.day : Int)] else rule.byMonthDay) ∧ 0 < day ∧
      day < 2 ^ 31 := by
  have hbounds := date_bounds start
  have hmd := hsized.byMonthDay
  unfold dayOfMonth at h
  split at h
  · rename_i hnil
    obtain rfl := Except.ok.inj h
    rw [hnil]
    exact ⟨rfl, by omega, by omega⟩
  · rename_i one hone
    rw [hone] at hmd ⊢
    split at h
    · obtain rfl := Except.ok.inj h
      exact ⟨rfl, ‹_›, (hmd _ (List.mem_singleton_self _)).2⟩
    · split at h
      · exact nomatch h
      · exact nomatch h
  · exact nomatch h

theorem parseDigits_eq_some {cs : List Char} {n : Nat} (h : parseDigits cs = some n) :
    cs.all Char.isDigit = true ∧ Nat.ofDigitChars 10 cs 0 = n := by
  unfold parseDigits at h
  split at h
  · exact nomatch h
  · rename_i hok
    simp only [Bool.or_eq_true, Bool.not_eq_true', not_or, Bool.not_eq_false] at hok
    exact ⟨hok.2, Option.some.inj h⟩

theorem parseU32_eq_parseMonth {text : String} {m m' : Nat} (h : parseU32 text = some m)
    (h' : parseMonth text = .ok m') : m = m' := by
  unfold parseU32 at h
  unfold parseMonth at h'
  dsimp only at h h'
  split at h'
  · exact nomatch h'
  · rename_i hnonempty
    split at h'
    · obtain rfl := Except.ok.inj h'
      split at h
      · rename_i rest htext
        rw [htext] at hnonempty
        simp at hnonempty
      · obtain ⟨hdigits, -⟩ := Option.filter_eq_some_iff.mp h
        obtain ⟨hall, rfl⟩ := parseDigits_eq_some hdigits
        rw [List.takeWhile_eq_self_iff.mpr (List.all_eq_true.mp hall)]
    · exact nomatch h'

theorem monthOf_spec (hmonths : parseByMonth rule.byMonth = .ok months)
    (h : monthOf rule start = .ok month) : months.getD [start.month] = [month] ∧ 1 ≤ month ∧ month ≤ 12 := by
  have hbounds := date_bounds start
  unfold monthOf at h
  split at h
  · rename_i hnil
    obtain rfl := Except.ok.inj h
    rw [hnil] at hmonths
    obtain rfl : none = months := Except.ok.inj hmonths
    exact ⟨rfl, hbounds.1, hbounds.2.1⟩
  · rename_i one hone
    split at h
    · rename_i m hm
      obtain rfl := Except.ok.inj h
      rw [hone] at hmonths
      obtain ⟨parsed, hparsed, hmonths⟩ := bind_eq_ok.mp hmonths
      obtain rfl := Except.ok.inj hmonths
      rw [List.mapM_cons] at hparsed
      obtain ⟨m', hm', hparsed⟩ := bind_eq_ok.mp hparsed
      obtain rfl : [m'] = parsed := Except.ok.inj hparsed
      have hrange := parseMonth_bounds hm'
      obtain rfl := parseU32_eq_parseMonth hm hm'
      refine ⟨?_, hrange⟩
      obtain ⟨h₁, h₂⟩ := hrange
      rw [Option.getD_some]
      interval_cases m <;> decide
    · exact nomatch h
  · exact nomatch h

variable {rest : List (String × Json)}

theorem relativePattern_spec {type : String} (h : relativePattern type rule rest = .ok pattern) :
    ∃ nth index, sharedOrdinal rule.byDay = .ok nth ∧ indexName nth = .ok index ∧
      pattern = .obj (("type", .str type) :: ("daysOfWeek", dayNames (rule.byDay.map (·.day))) ::
        ("index", .str index) :: rest) := by
  obtain ⟨nth, hnth, h⟩ := bind_eq_ok.mp h
  obtain ⟨index, hindex, h⟩ := bind_eq_ok.mp h
  exact ⟨nth, index, hnth, hindex, (Except.ok.inj h).symm⟩

theorem absolutePattern_spec {type : String} (h : absolutePattern type rule start rest = .ok pattern) :
    ∃ day, dayOfMonth rule start = .ok day ∧
      pattern = .obj (("type", .str type) :: ("dayOfMonth", .num day) :: rest) := by
  obtain ⟨day, hday, h⟩ := bind_eq_ok.mp h
  exact ⟨day, hday, (Except.ok.inj h).symm⟩

theorem renderPattern_spec (h : renderPattern rule start = .ok rendered) : ∃ pattern, patternOf rule start = .ok pattern ∧
      (∀ key, key ≠ "interval" → key ≠ "firstDayOfWeek" → rendered.get key = pattern.get key) ∧
      (∀ fields, pattern = .obj fields → rendered.get "interval" = some (.num rule.interval) ∧
        rendered.get "firstDayOfWeek" = if rule.frequency = .weekly then
          some (.str (weekdayName rule.firstDayOfWeek)) else pattern.get "firstDayOfWeek") := by
  obtain ⟨⟨⟩, -, h⟩ := bind_eq_ok.mp h
  obtain ⟨pattern, hpattern, h⟩ := bind_eq_ok.mp h
  obtain rfl := Except.ok.inj h
  refine ⟨pattern, hpattern, ?_, ?_⟩
  · intro key hinterval hfirst
    split
    · rw [get_set_of_ne hfirst, get_set_of_ne hinterval]
    · rw [get_set_of_ne hinterval]
  · rintro fields rfl
    split
    · refine ⟨?_, get_set_self _ _ _⟩
      rw [get_set_of_ne (by decide), get_set_self]
    · refine ⟨get_set_self _ _ _, ?_⟩
      rw [get_set_of_ne (by decide)]

def keptParts (rule : RecurrenceRule) (start : Date) (months : Option (List Nat)) : RecurrenceRule :=
  { RecurrenceRule.new rule.frequency with
    byDay := keptDays rule start, byMonthDay := keptMonthDay rule start, byMonth := keptMonth rule start months }

/-- A rendered pattern is read back as the parts Graph keeps, and has no first day of the week of its own. -/
structure ReadBack (rule : RecurrenceRule) (start : Date) (months : Option (List Nat)) (pattern rendered : Json) :
    Prop where
  read : readPattern rendered = .ok (keptParts rule start months)
  isObj : ∃ fields, pattern = .obj fields
  noFirstDay : pattern.get "firstDayOfWeek" = none

variable {months : Option (List Nat)} {rendered : Json}

/-- Whatever is set besides, the fields of a pattern are found. -/
def Carries (rendered pattern : Json) : Prop :=
  ∀ key, key ≠ "interval" → key ≠ "firstDayOfWeek" → rendered.get key = pattern.get key

theorem Carries.type {type : String}
    (h : Carries rendered (.obj (("type", .str type) :: rest))) : rendered.optStr "type" = some type := by
  unfold Json.optStr
  rw [h "type" (by decide) (by decide), get_obj_cons_self]
  rfl

theorem daily_readBack (hfreq : rule.frequency = .daily) (h : daily rule = .ok pattern)
    (hget : Carries rendered pattern) : ReadBack rule start months pattern rendered := by
  unfold daily at h
  split at h
  · rename_i hnil
    obtain rfl := Except.ok.inj h
    rw [List.isEmpty_iff] at hnil
    refine ⟨?_, ⟨_, rfl⟩, by simp [Json.get]⟩
    rw [readPattern_daily hget.type]
    simp [keptParts, keptDays, keptMonthDay, keptMonth, hfreq, hnil, RecurrenceRule.new]
  · cases h

theorem weekly_readBack (hfreq : rule.frequency = .weekly) (h : weekly rule start = .ok pattern)
    (hget : Carries rendered pattern) : ReadBack rule start months pattern rendered := by
  unfold weekly at h
  split at h
  · exact nomatch h
  · obtain rfl := Except.ok.inj h
    have hdays : rendered.get "daysOfWeek" = some (dayNames (weeklyDays rule start)) := by
      rw [hget "daysOfWeek" (by decide) (by decide), get_obj_cons_of_ne (by decide), get_obj_cons_self]
    refine ⟨?_, ⟨_, rfl⟩, by simp [Json.get, List.lookup]⟩
    rw [readPattern_weekly hget.type hdays]
    simp [keptParts, keptDays, keptMonthDay, keptMonth, hfreq, RecurrenceRule.new]

theorem Carries.relative {type : String} {index : String}
    (h : Carries rendered (.obj (("type", .str type) :: ("daysOfWeek", dayNames (rule.byDay.map (·.day))) ::
      ("index", .str index) :: rest))) (hindex : indexName nth = .ok index) :
    rendered.get "daysOfWeek" = some (dayNames (rule.byDay.map (·.day))) ∧ indexNth rendered = some nth := by
  constructor
  · rw [h "daysOfWeek" (by decide) (by decide), get_obj_cons_of_ne (by decide), get_obj_cons_self]
  · refine indexNth_indexName hindex ?_
    unfold Json.optStr
    rw [h "index" (by decide) (by decide), get_obj_cons_of_ne (by decide), get_obj_cons_of_ne (by decide),
      get_obj_cons_self]
    rfl

theorem Carries.absolute {type : String}
    (h : Carries rendered (.obj (("type", .str type) :: ("dayOfMonth", .num day) :: rest))) :
    rendered.get "dayOfMonth" = some (.num day) := by
  rw [h "dayOfMonth" (by decide) (by decide), get_obj_cons_of_ne (by decide), get_obj_cons_self]

theorem monthly_readBack (hsized : Sized rule) (hfreq : rule.frequency = .monthly)
    (h : monthly rule start = .ok pattern) (hget : Carries rendered pattern) :
    ReadBack rule start months pattern rendered := by
  unfold monthly at h
  split at h
  · rename_i hnil
    obtain ⟨day, hday, rfl⟩ := absolutePattern_spec h
    obtain ⟨hdays, hpos, hlt⟩ := dayOfMonth_spec hsized hday
    refine ⟨?_, ⟨_, rfl⟩, by simp [Json.get, List.lookup]⟩
    rw [readPattern_absoluteMonthly hget.type, readDayOfMonth_eq hget.absolute hpos hlt, hdays]
    rw [List.isEmpty_iff] at hnil
    simp [keptParts, keptDays, keptMonthDay, keptMonth, hfreq, hnil, RecurrenceRule.new]
  · rename_i hne
    obtain ⟨nth, index, hnth, hindex, rfl⟩ := relativePattern_spec h
    obtain ⟨hdays, hread⟩ := hget.relative hindex
    refine ⟨?_, ⟨_, rfl⟩, by simp [Json.get, List.lookup]⟩
    rw [readPattern_relativeMonthly hget.type hdays (sharedOrdinal_spec hnth) hread]
    rw [List.isEmpty_iff] at hne
    simp [keptParts, keptDays, keptMonthDay, keptMonth, hfreq, hne, RecurrenceRule.new]

theorem yearly_readBack (hsized : Sized rule) (hmonths : parseByMonth rule.byMonth = .ok months)
    (hfreq : rule.frequency = .yearly) (h : yearly rule start = .ok pattern) (hget : Carries rendered pattern) :
    ReadBack rule start months pattern rendered := by
  obtain ⟨month, hmonth, h⟩ := bind_eq_ok.mp h
  obtain ⟨hone, hrange⟩ := monthOf_spec hmonths hmonth
  split at h
  · rename_i hnil
    obtain ⟨day, hday, rfl⟩ := absolutePattern_spec h
    obtain ⟨hdays, hpos, hlt⟩ := dayOfMonth_spec hsized hday
    have hget' : rendered.get "month" = some (.num month) := by
      rw [hget "month" (by decide) (by decide), get_obj_cons_of_ne (by decide),
        get_obj_cons_of_ne (by decide), get_obj_cons_self]
    refine ⟨?_, ⟨_, rfl⟩, by simp [Json.get, List.lookup]⟩
    rw [readPattern_absoluteYearly hget.type, readDayOfMonth_eq hget.absolute hpos hlt, hdays, readMonth_eq hget' hrange]
    rw [List.isEmpty_iff] at hnil
    simp [keptParts, keptDays, keptMonthDay, keptMonth, hfreq, hnil, hone, RecurrenceRule.new]
  · rename_i hne
    obtain ⟨nth, index, hnth, hindex, rfl⟩ := relativePattern_spec h
    obtain ⟨hdays, hread⟩ := hget.relative hindex
    have hget' : rendered.get "month" = some (.num month) := by
      rw [hget "month" (by decide) (by decide), get_obj_cons_of_ne (by decide),
        get_obj_cons_of_ne (by decide), get_obj_cons_of_ne (by decide), get_obj_cons_self]
    refine ⟨?_, ⟨_, rfl⟩, by simp [Json.get, List.lookup]⟩
    rw [readPattern_relativeYearly hget.type hdays (sharedOrdinal_spec hnth) hread, readMonth_eq hget' hrange]
    rw [List.isEmpty_iff] at hne
    simp [keptParts, keptDays, keptMonthDay, keptMonth, hfreq, hne, hone, RecurrenceRule.new]

theorem pattern_readBack (hsized : Sized rule) (hmonths : parseByMonth rule.byMonth = .ok months)
    (h : patternOf rule start = .ok pattern) (hget : Carries rendered pattern) :
    ReadBack rule start months pattern rendered := by
  unfold patternOf at h
  cases hfreq : rule.frequency with
  | daily =>
    rw [hfreq] at h
    exact daily_readBack hfreq h hget
  | weekly =>
    rw [hfreq] at h
    exact weekly_readBack hfreq h hget
  | monthly =>
    rw [hfreq] at h
    exact monthly_readBack hsized hfreq h hget
  | yearly =>
    rw [hfreq] at h
    exact yearly_readBack hsized hmonths hfreq h hget
  | hourly =>
    rw [hfreq] at h
    exact nomatch h
  | minutely =>
    rw [hfreq] at h
    exact nomatch h
  | secondly =>
    rw [hfreq] at h
    exact nomatch h

variable {read : RecurrenceRule}

theorem readInterval_eq (hsized : Sized rule) (h : rendered.get "interval" = some (.num rule.interval)) :
    readInterval rendered read = { read with interval := rule.interval, intervalPos := rule.intervalPos } := by
  have hu64 := Json.asU64_num (lt_trans hsized.interval (by decide : 2 ^ 32 < 2 ^ 64))
  unfold readInterval
  rw [h, Option.bind_some, hu64]
  exact dif_pos ⟨rule.intervalPos, hsized.interval⟩

theorem readFirstDay_eq (hread : read.firstDayOfWeek = .mo) (h : rendered.get "firstDayOfWeek" =
      if rule.frequency = .weekly then some (.str (weekdayName rule.firstDayOfWeek)) else none) :
    readFirstDay rendered read =
      { read with firstDayOfWeek := if rule.frequency = .weekly then rule.firstDayOfWeek else .mo } := by
  unfold readFirstDay Json.optStr
  rw [h]
  split
  · rename_i day hday
    by_cases hweekly : rule.frequency = .weekly
    · rw [if_pos hweekly] at hday
      have hsome : some rule.firstDayOfWeek = some day := (graphWeekday_weekdayName _).symm.trans hday
      rw [if_pos hweekly, Option.some.inj hsome]
    · rw [if_neg hweekly] at hday
      exact nomatch hday
  · rename_i hday
    by_cases hweekly : rule.frequency = .weekly
    · rw [if_pos hweekly] at hday
      exact nomatch (graphWeekday_weekdayName _).symm.trans hday
    · rw [if_neg hweekly, ← hread]

end Patterns

/-- A rendered rule is read back as the rule Graph keeps; where `UNTIL` lies before the year 0, not at all. -/
theorem parseRecurrence_rendered {months : Option (List Nat)} {json : Json} (hsized : Sized rule)
    (hmonths : parseByMonth rule.byMonth = .ok months) (h : renderRecurrence rule start = .ok json) :
    (UntilWritten rule → parseRecurrence json = .ok (kept rule start months)) ∧
      (¬UntilWritten rule → ∀ read, parseRecurrence json ≠ .ok read) := by
  obtain ⟨rendered, hrendered, h⟩ := bind_eq_ok.mp h
  obtain rfl := Except.ok.inj h
  obtain ⟨pattern, hpattern, hget, hset⟩ := renderPattern_spec hrendered
  have hback := pattern_readBack hsized hmonths hpattern hget
  obtain ⟨fields, hfields⟩ := hback.isObj
  obtain ⟨hinterval, hfirst⟩ := hset fields hfields
  rw [hback.noFirstDay] at hfirst
  have hparse : parseRecurrence (.obj [("pattern", rendered), ("range", renderRange rule start)]) =
      parseRule rendered (renderRange rule start) := by
    simp [parseRecurrence, get_obj_cons_of_ne]
  rw [hparse]
  unfold parseRule
  rw [hback.read]
  constructor
  · intro hwritten
    rw [parseBound_renderRange hsized hwritten]
    show Except.ok { readFirstDay rendered (readInterval rendered (keptParts rule start months)) with
      bound := keptBound rule.bound } = _
    rw [readInterval_eq hsized hinterval, readFirstDay_eq rfl hfirst]
    rfl
  · intro hnot read hok
    obtain ⟨_, -, hok⟩ := bind_eq_ok.mp hok
    obtain ⟨bound, hbound, -⟩ := bind_eq_ok.mp hok
    exact parseBound_of_not_written hnot bound hbound

end Graph
end SyncEngine
