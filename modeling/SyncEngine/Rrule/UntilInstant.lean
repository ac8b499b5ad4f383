import SyncEngine.Ical.Plan
import SyncEngine.Recurrence.Overrides
import SyncEngine.Rrule.RoundTrip

/-!
# The end of a zoned series

A rule of a zoned series is written with its end as an instant of UTC.  It is read back with the wall clock of UTC
at that instant, and the instances are compared with it by their own wall clocks.
-/

namespace SyncEngine
namespace Rrule

open Recurrence Fallible
open Clock (size_zeroPadded)

/-! ## Writing the rule of an event -/

section Writing

variable {κ β : Type} {rule : RecurrenceRule} {t : LocalDateTime} {instant : UtcDateTime}

def endOf : RecurrenceBound → Ical.RecurrenceBound
  | .unbounded => .unbounded
  | .count _ _ => .count
  | .untilTime _ => .until_

def formOf : Ical.UntilForm → UntilForm
  | .floating => .floating
  | .date => .date
  | .utc instant => .utc instant

def refusal : RruleFormatError → Ical.IcalError
  | .nonGregorian rscale => .other ("cannot render a non-Gregorian RSCALE=\"".toList ++
      (rscale.toList ++ "\" rule as an RRULE without losing it".toList))

/-- The planner with the rules themselves and their text. -/
def rendering (o : Ical.Outside RecurrenceRule κ β) : Ical.Outside RecurrenceRule κ β :=
  { o with
    bound := fun rule => endOf rule.bound
    formatRrule := fun rule form => (formatRrule rule (formOf form)).mapError refusal }

theorem rruleValue_zoned {o : Ical.Outside RecurrenceRule κ β} {wall : Ical.LocalDateTime} {zone : Ical.TimeZoneId}
    {text : List Char} (hbound : rule.bound = .untilTime t)
    (h : Ical.rruleValue (rendering o) ⟨rule, some instant⟩ (.zoned wall zone) = .ok text) :
    rule.rscale = none ∧ text = written rule (.utc instant) := by
  unfold Ical.rruleValue rendering at h
  dsimp only at h
  rw [hbound] at h
  have hformat : (formatRrule rule (.utc instant)).mapError refusal = .ok text := h
  unfold formatRrule at hformat
  cases hrscale : rule.rscale with
  | some rscale =>
    rw [hrscale] at hformat
    exact nomatch hformat
  | none =>
    rw [hrscale] at hformat
    exact ⟨rfl, (Except.ok.inj hformat).symm⟩

end Writing

/-! ## Years of five characters -/

section Years

variable {date : Date} {t : LocalDateTime} {instant : UtcDateTime}

theorem size_zeroPadded_wide {n : Nat} (hlow : 1000 ≤ n) (hhigh : n < 10000) : Utf8.size (zeroPadded 3 n) = 4 := by
  have hlength : 4 ≤ (decimal n).length := by
    by_contra hshort
    have hlt : digitsValue (decimal n) < 10 ^ (decimal n).length := digitsValue_lt isDigits_decimal
    have hle : 10 ^ (decimal n).length ≤ 10 ^ 3 := Nat.pow_le_pow_right (by decide) (by omega)
    rw [digitsValue_decimal] at hlt
    omega
  have hsame : zeroPadded 3 n = zeroPadded 4 n := by
    unfold zeroPadded List.leftpad
    rw [Nat.sub_eq_zero_of_le hlength, Nat.sub_eq_zero_of_le (by omega)]
  rw [hsame]
  exact size_zeroPadded (by decide) hhigh

theorem size_basicDate_early (h : date.year < -999) : Utf8.size (basicDate date) = 9 := by
  obtain ⟨hmonth, hday⟩ := date_parts date
  have hrange := date.inRange
  have hsign : Char.utf8Size '-' = 1 := by decide
  have hyear : Utf8.size (zeroPaddedInt 4 date.year) = 5 := by
    unfold zeroPaddedInt
    rw [if_pos (by omega), Utf8.size_cons, hsign, size_zeroPadded_wide (by omega) (by omega)]
  unfold basicDate
  rw [Utf8.size_append, Utf8.size_append, hyear, hmonth, hday]

theorem size_basicDateTime_early (h : t.date.year < -999) : Utf8.size (basicDateTime t) = 16 := by
  obtain ⟨hhour, hminute, hsecond⟩ := time_parts t.time
  have hT : Char.utf8Size 'T' = 1 := by decide
  unfold basicDateTime
  rw [Utf8.size_append, Utf8.size_cons, Utf8.size_append, Utf8.size_append, size_basicDate_early h, hhour, hminute,
    hsecond, hT]

theorem untilBody_early {body : List Char} (h : Utf8.size body = 16) : untilBody body = none := by
  unfold untilBody
  cases field (parseSigned 32) body 0 4 with
  | none => rfl
  | some year =>
    cases field (parseUnsigned 8) body 4 6 with
    | none => rfl
    | some month =>
      cases field (parseUnsigned 8) body 6 8 with
      | none => rfl
      | some day =>
        show untilTime body year month day = none
        unfold untilTime
        rw [if_neg (by omega), if_pos (.inl (by omega))]

theorem trimEndZulu_utc (t : LocalDateTime) : trimEndZulu (basicDateTime t ++ ['Z']) = basicDateTime t := by
  have hdateTime : basicDateTime t = basicDate t.date ++
      'T' :: (zeroPadded 2 t.time.hour ++ zeroPadded 2 t.time.minute) ++ zeroPadded 2 t.time.second := by
    unfold basicDateTime
    simp only [List.append_assoc, List.cons_append]
  rw [hdateTime]
  exact (trimEndZulu_digits zeroPadded_ne_nil isDigits_zeroPadded).2

theorem parseUntil_early (h : (Clock.wallOf instant).date.year < -999) :
    ∃ e, parseUntil (renderUntil t (.utc instant)) = .error e := by
  have htrim := trimChars_of_trimmed (trimmed_of_forall fun c hc => (plain_renderUntil t (.utc instant) c hc).1)
  have hzulu := trimEndZulu_utc (Clock.wallOf instant)
  have hbody := untilBody_early (size_basicDateTime_early h)
  refine ⟨.untilTime (renderUntil t (.utc instant)), ?_⟩
  unfold parseUntil
  rw [htrim, show renderUntil t (.utc instant) = basicDateTime (Clock.wallOf instant) ++ ['Z'] from rfl, hzulu, hbody]

theorem parseRrule_early {rule : RecurrenceRule} (hbound : rule.bound = .untilTime t)
    (hmonths : ∀ month ∈ rule.byMonth, IsEntry month.toList) (h : (Clock.wallOf instant).date.year < -999) :
    ∃ e, parseRrule (written rule (.utc instant)) = .error e := by
  obtain ⟨e, hparse⟩ := @parseUntil_early t instant h
  have hfreq : (get (parseParts (written rule (.utc instant))) "FREQ").bind frequency = some rule.frequency := by
    rw [parseParts_written_rule hmonths]
    show frequency (frequencyToken rule.frequency) = _
    exact frequency_frequencyToken rule.frequency
  have hcount : get (parseParts (written rule (.utc instant))) "COUNT" = none := by
    rw [get_written_rule hmonths (by decide)]
    simp only [optionalParts, List.find?_cons, String.reduceEq, decide_false, decide_true, hbound, Option.bind_some]
  have huntil : get (parseParts (written rule (.utc instant))) "UNTIL" = some (renderUntil t (.utc instant)) := by
    rw [get_written_rule hmonths (by decide)]
    simp only [optionalParts, List.find?_cons, String.reduceEq, decide_false, decide_true, hbound, Option.bind_some]
  have hread : parseBound (parseParts (written rule (.utc instant))) = .error e := by
    unfold parseBound
    rw [hcount, huntil]
    show (parseUntil (renderUntil t (.utc instant))).map _ = _
    rw [hparse]
    rfl
  refine ⟨e, ?_⟩
  unfold parseRrule
  simp only [hfreq, hread]
  rfl

end Years

/-! ## Instances by their starts -/

section Instances

variable {Zone : Type} {tz : Tzdb Zone} {hostZone : TimeZoneId} {event : Event} {horizon : Horizon}
variable {rule : RecurrenceRule} {t : LocalDateTime} {instant : UtcDateTime} {text : List Char}
variable {rows : List OccurrenceRow} {ctx : Context Zone} {windowEnd d : Date} {skip skip' : RecurrenceSkip}

def rereadInstant (instant : UtcDateTime) : LocalDateTime := wholeSecond (Clock.wallOf instant)

/-- The rule read from the text has the instances that start by the instant, among those of the rule without an
end. -/
def BoundsInstants (tz : Tzdb Zone) (hostZone : TimeZoneId) (event : Event) (horizon : Horizon) (text : List Char)
    (instant : UtcDateTime) (rows : List OccurrenceRow) : Prop :=
  ∃ rule, parseRrule text = .ok rule ∧
    expand tz hostZone (event.repeating rule) horizon = .ok (rows.filter fun row => row.start ≤ instant)

/-- Every instance of the rule without an end is on the same side of the instant and of its wall clock in UTC,
which can be read back. -/
def SameSide (tz : Tzdb Zone) (horizon : Horizon) (ctx : Context Zone) (windowEnd : Date) (rule : RecurrenceRule)
    (instant : UtcDateTime) : Prop :=
  -999 ≤ (Clock.wallOf instant).date.year ∧
    ∀ d, Instance (rule.ending .unbounded rule.skip) ctx.date d → d ≤ windowEnd →
      ∀ start, tz.toZoned ctx.zone ⟨d, ctx.time⟩ = some start → inWindow horizon start = true →
        (instanceRid ctx.time d ≤ rereadInstant instant ↔ start ≤ instant)

theorem instance_until_iff : Instance (rule.ending (.untilTime t) skip') ctx.date d ↔
    Instance (rule.ending .unbounded skip) ctx.date d ∧ d ≤ t.date := by
  have hcount : ∀ c : Nat, (none : Option Nat) ≠ some c := fun c hc => nomatch hc
  constructor
  · rintro ⟨⟨hdrawn, hstart, huntil⟩, -⟩
    exact ⟨⟨⟨hdrawn, hstart, fun t' ht' => nomatch ht'⟩, fun c hc => absurd hc (hcount c)⟩, huntil t rfl⟩
  · rintro ⟨⟨⟨hdrawn, hstart, -⟩, -⟩, hle⟩
    refine ⟨⟨hdrawn, hstart, fun t' ht' => ?_⟩, fun c hc => absurd hc (hcount c)⟩
    obtain rfl : t = t' := RecurrenceBound.untilTime.inj ht'
    exact hle

theorem date_le_of_le {a b : LocalDateTime} (h : a ≤ b) : a.date ≤ b.date := by
  have hle : a.nanos ≤ b.nanos := h
  have ha := a.time.nanos_bounds
  have hb := b.time.nanos_bounds
  unfold LocalDateTime.nanos at hle
  unfold nanosPerDay at *
  show a.date.number ≤ b.date.number
  omega

theorem ruleDates_until {dates : List Date}
    (h : ruleDates ctx windowEnd (rule.ending .unbounded skip) = .ok dates) (t : LocalDateTime) :
    ∃ dates', ruleDates ctx windowEnd (rule.ending (.untilTime t) skip') = .ok dates' ∧
      sortDedup dates' = (sortDedup dates).filter fun d => instanceRid ctx.time d ≤ t := by
  obtain ⟨all, hall, -⟩ := bind_eq_ok.mp h
  obtain ⟨all', hall'⟩ : ∃ all', occurrenceDates ctx.date (rule.ending (.untilTime t) skip') windowEnd instanceCap =
    .ok all' := occurrenceDates_until_ok t hall
  have hdates' : ruleDates ctx windowEnd (rule.ending (.untilTime t) skip') =
      .ok (all'.filter (untilAdmits (.untilTime t) ctx.time)) := by
    unfold ruleDates
    rw [hall']
    rfl
  refine ⟨_, hdates', ?_⟩
  refine List.Perm.eq_of_pairwise (fun a b _ _ hab hba => absurd hab (not_lt_of_gt hba)) (sortDedup_sorted _)
    ((sortDedup_sorted _).filter _) ?_
  refine (List.perm_ext_iff_of_nodup ?_ ?_).mpr ?_
  · exact (sortDedup_sorted _).imp fun hlt => ne_of_lt hlt
  · exact ((sortDedup_sorted _).imp fun hlt => ne_of_lt hlt).filter _
  · intro d
    rw [mem_sortDedup, mem_ruleDates hdates', List.mem_filter, mem_sortDedup, mem_ruleDates h, decide_eq_true_eq]
    have hinstance : Instance (rule.ending (.untilTime t) skip') ctx.date d ↔
        Instance (rule.ending .unbounded skip) ctx.date d ∧ d ≤ t.date := instance_until_iff
    have hadmits : untilAdmits (rule.ending (.untilTime t) skip').bound ctx.time d = true ↔
        instanceRid ctx.time d ≤ t := decide_eq_true_iff
    have hall : untilAdmits (rule.ending .unbounded skip).bound ctx.time d = true := rfl
    unfold InstanceAt
    rw [hinstance, hadmits]
    constructor
    · rintro ⟨⟨⟨hin, -⟩, hle⟩, hwindow⟩
      exact ⟨⟨⟨hin, hall⟩, hwindow⟩, hle⟩
    · rintro ⟨⟨⟨hin, -⟩, hwindow⟩, hle⟩
      have hday : (instanceRid ctx.time d).date ≤ t.date := date_le_of_le hle
      exact ⟨⟨⟨hin, hday⟩, hle⟩, hwindow⟩

theorem plainRow_start {row : OccurrenceRow} (h : plainRow tz event horizon ctx d = some row) :
    tz.toZoned ctx.zone ⟨d, ctx.time⟩ = some row.start ∧ inWindow horizon row.start = true := by
  obtain ⟨hwhole, hin⟩ := Option.filter_eq_some_iff.mp h
  exact ⟨wholePlain_start hwhole, hin⟩

theorem plainRow_of_start {start : UtcDateTime} {range : UtcDateTime × UtcDateTime}
    (hrange : resolveRange tz ctx.zone ⟨d, ctx.time⟩ event.duration = .ok range)
    (hstart : tz.toZoned ctx.zone ⟨d, ctx.time⟩ = some start) (hin : inWindow horizon start = true) :
    ∃ row, plainRow tz event horizon ctx d = some row ∧ row.start = start := by
  have hwhole : value (wholePlain tz event ctx d) = some (mkRow tz event range.1 range.2 none) := by
    unfold wholePlain
    rw [hrange]
    rfl
  have hsame : range.1 = start := Option.some.inj ((wholePlain_start hwhole).symm.trans hstart)
  refine ⟨_, Option.filter_eq_some_iff.mpr ⟨hwhole, ?_⟩, hsame⟩
  show inWindow horizon range.1 = true
  rw [hsame]
  exact hin

theorem rereadMonths_of_ruleDates {dates : List Date} (h : ruleDates ctx windowEnd rule = .ok dates) :
    rereadMonths rule.byMonth = rule.byMonth := by
  unfold rereadMonths
  rw [if_neg]
  intro hempty
  obtain ⟨all, hall, -⟩ := bind_eq_ok.mp h
  obtain ⟨⟨⟩, -, hall⟩ := bind_eq_ok.mp hall
  obtain ⟨months, hmonths, -⟩ := bind_eq_ok.mp hall
  rw [hempty] at hmonths
  exact nomatch hmonths

theorem parseRrule_written_until (hreadable : Readable (rule.ending .unbounded rule.skip)) (hrscale : rule.rscale = none)
    (hbound : rule.bound = .untilTime t) (hmonths : rereadMonths rule.byMonth = rule.byMonth)
    (hyear : -999 ≤ (Clock.wallOf instant).date.year) :
    parseRrule (written rule (.utc instant)) = .ok (rule.ending (.untilTime (rereadInstant instant)) .omit) := by
  let ended := rule.ending (.untilTime (rereadInstant instant)) rule.skip
  have hwritten : written rule (.utc instant) = written ended (.utc instant) := by
    have hrule : rule = rule.ending (.untilTime t) rule.skip := by
      rw [← hbound]
      rfl
    rw [hrule]
    rfl
  have hended : Readable ended := by
    refine { hreadable with count := fun n pos hcount => (nomatch hcount), untilTime := fun t' ht' => ?_ }
    obtain rfl : rereadInstant instant = t' := RecurrenceBound.untilTime.inj ht'
    exact ⟨rfl, hyear⟩
  have hread : parseRrule (written ended (.utc instant)) = .ok (reread ended (.utc instant)) :=
    parseRrule_written hended hrscale fun _ _ => hyear
  have hreread : reread ended (.utc instant) = rule.ending (.untilTime (rereadInstant instant)) .omit := by
    unfold reread
    rw [show rereadMonths ended.byMonth = rule.byMonth from hmonths]
    rfl
  rw [hwritten, hread, hreread]

variable {κ β : Type} {o : Ical.Outside RecurrenceRule κ β} {wall : Ical.LocalDateTime} {zone : Ical.TimeZoneId}

/-- The rule of a zoned series, written and read back, has the instances up to the instant of its end just where
every instance is on the same side of that instant and of its wall clock in UTC. -/
theorem rrule_until_iff (hreadable : Readable (rule.ending .unbounded rule.skip)) (hbound : rule.bound = .untilTime t)
    (hcancelled : event.cancelled = false) (hrid : event.recurrenceId = none)
    (hwritten : Ical.rruleValue (rendering o) ⟨rule, some instant⟩ (.zoned wall zone) = .ok text)
    (h : expand tz hostZone (event.repeating (rule.ending .unbounded rule.skip)) horizon = .ok rows) :
    ∃ ctx windowEnd, context tz hostZone event.start = .ok ctx ∧ windowEndOf horizon = .ok windowEnd ∧
      (BoundsInstants tz hostZone event horizon text instant rows ↔ SameSide tz horizon ctx windowEnd rule instant) := by
  obtain ⟨hrscale, rfl⟩ := rruleValue_zoned hbound hwritten
  obtain ⟨ctx, windowEnd, dates, hctx, hend, hdates, hresolves, rfl⟩ := (expand_repeating_iff hcancelled hrid).mp h
  refine ⟨ctx, windowEnd, hctx, hend, ?_⟩
  by_cases hyear : -999 ≤ (Clock.wallOf instant).date.year
  · have hmonths : rereadMonths (rule.ending .unbounded rule.skip).byMonth =
        (rule.ending .unbounded rule.skip).byMonth := rereadMonths_of_ruleDates hdates
    have hread := parseRrule_written_until hreadable hrscale hbound hmonths hyear
    obtain ⟨dates', hdates', hsorted⟩ : ∃ dates',
        ruleDates ctx windowEnd (rule.ending (.untilTime (rereadInstant instant)) .omit) = .ok dates' ∧ _ :=
      ruleDates_until hdates (rereadInstant instant)
    have hresolves' : Resolves tz event ctx dates' := by
      intro d hd
      have hin : d ∈ sortDedup dates' := mem_sortDedup.mpr hd
      rw [hsorted] at hin
      exact hresolves d (mem_sortDedup.mp (List.mem_of_mem_filter hin))
    have hexpand := (expand_repeating_iff hcancelled hrid).mpr ⟨ctx, windowEnd, dates', hctx, hend, hdates', hresolves', rfl⟩
    have hbounds : BoundsInstants tz hostZone event horizon (written rule (.utc instant)) instant
        (sortRows ((sortDedup dates).filterMap (plainRow tz event horizon ctx))) ↔
          ∀ d ∈ sortDedup dates, ∀ row, plainRow tz event horizon ctx d = some row →
            (decide (instanceRid ctx.time d ≤ rereadInstant instant) = true ↔ row.start ≤ instant) := by
      rw [← sortRows_filter_iff, ← hsorted]
      constructor
      · rintro ⟨rule', hrule', hrows⟩
        obtain rfl := Except.ok.inj (hread.symm.trans hrule')
        exact Except.ok.inj (hexpand.symm.trans hrows)
      · intro hrows
        exact ⟨_, hread, hexpand.trans (congrArg _ hrows)⟩
    rw [hbounds]
    constructor
    · intro hall
      refine ⟨hyear, ?_⟩
      intro d hinstance hle start hstart hin
      have hmem : d ∈ dates := (mem_ruleDates hdates).mpr ⟨⟨hinstance, rfl⟩, hle⟩
      obtain ⟨range, hrange⟩ := hresolves d hmem
      obtain ⟨row, hrow, rfl⟩ := plainRow_of_start hrange hstart hin
      have hside := hall d (mem_sortDedup.mpr hmem) row hrow
      rwa [decide_eq_true_eq] at hside
    · rintro ⟨-, hall⟩ d hd row hrow
      obtain ⟨⟨hinstance, -⟩, hle⟩ := (mem_ruleDates hdates).mp (mem_sortDedup.mp hd)
      obtain ⟨hstart, hin⟩ := plainRow_start hrow
      rw [decide_eq_true_eq]
      exact hall d hinstance hle row.start hstart hin
  · obtain ⟨e, hread⟩ := parseRrule_early hbound hreadable.byMonth (not_le.mp hyear)
    constructor
    · rintro ⟨rule', hrule', -⟩
      exact nomatch hread.symm.trans hrule'
    · exact fun hside => absurd hside.1 hyear

end Instances

/-! ## East of Greenwich -/

/-- A planner that takes nothing from elsewhere. -/
def Sample.alone : Ical.Outside RecurrenceRule Unit Unit where
  windowsToIana _ := none
  bound _ := .unbounded
  formatRrule _ _ := .error .noDtstart
  project _ := .ok ()
  meetingText _ _ := .ok (none, none)
  removes _ _ := none
  adds _ := .ok none

open Sample

def Sample.january3 : Date := ⟨2024, 1, 3, year_inRange, by decide⟩

/-- Every day, up to nine o'clock on 3 January. -/
def Sample.threeMornings : RecurrenceRule :=
  { RecurrenceRule.new .daily with bound := .untilTime ⟨january3, nine⟩ }

def Sample.everyMorning : RecurrenceRule := threeMornings.ending .unbounded .omit

def Sample.morning (zone : String) : Event :=
  ⟨"meeting", .zoned ⟨newYear, nine⟩ (.iana zone), Duration.zero, false, none, none⟩

theorem Sample.newYear_lt : 379409184000000000000 < UtcDateTime.rangeNanos := by decide

def Sample.fiveDays : Horizon :=
  ⟨⟨379409184000000000000, newYear_lt⟩, ⟨379409616000000000000, by decide⟩, by decide⟩

/-- Nine o'clock on 3 January, in Amsterdam. -/
def Sample.lastMorning : UtcDateTime := ⟨379409385600000000000, by decide⟩

/-- Nine o'clock on 3 January, in UTC. -/
def Sample.lastMorningUtc : UtcDateTime := ⟨379409389200000000000, by decide⟩

theorem everyMorning_readable : Readable everyMorning where
  interval := by decide
  count := fun n pos hcount => nomatch hcount
  untilTime := fun t ht => nomatch ht
  byDay := fun nday hmem => nomatch hmem
  byMonthDay := fun i hmem => nomatch hmem
  byYearDay := fun i hmem => nomatch hmem
  byWeekNo := fun i hmem => nomatch hmem
  bySetPosition := fun i hmem => nomatch hmem
  byHour := fun n hmem => nomatch hmem
  byMinute := fun n hmem => nomatch hmem
  bySecond := fun n hmem => nomatch hmem
  byMonth := fun month hmem => nomatch hmem

/-- The last morning is an hour after the wall clock of UTC at its own start, and is lost. -/
theorem rrule_until_loses_last :
    ¬∀ (rule : RecurrenceRule) (t : LocalDateTime) (instant : UtcDateTime) (text : List Char) (event : Event)
      (horizon : Horizon) (ctx : Context Unit) (rows : List OccurrenceRow),
      Readable (rule.ending .unbounded rule.skip) → rule.bound = .untilTime t → event.cancelled = false →
      event.recurrenceId = none → context amsterdam (.iana "Etc/UTC") event.start = .ok ctx →
      resolve amsterdam ctx.zone t = .ok instant →
      Ical.rruleValue (rendering alone) ⟨rule, some instant⟩
        (.zoned ⟨⟨2024, 1, 1⟩, 9, 0, 0⟩ (.iana "Europe/Amsterdam".toList)) = .ok text →
      expand amsterdam (.iana "Etc/UTC") (event.repeating (rule.ending .unbounded rule.skip)) horizon = .ok rows →
      BoundsInstants amsterdam (.iana "Etc/UTC") event horizon text instant rows := by
  intro h
  have hrows : ∃ rows, (expand amsterdam (.iana "Etc/UTC")
      ((morning "Europe/Amsterdam").repeating everyMorning) fiveDays).toOption = some rows ∧
      (rows.filter fun row => row.start ≤ lastMorning).length = 3 := by decide +kernel
  obtain ⟨rows, hrows, hthree⟩ := hrows
  obtain ⟨rule, hrule, hbounds⟩ := h threeMornings _ lastMorning _ (morning "Europe/Amsterdam")
    fiveDays ⟨(), newYear, nine⟩ rows everyMorning_readable rfl rfl rfl rfl
    (by decide) rfl (ok_of_toOption hrows)
  have hread : (parseRrule (written threeMornings (.utc lastMorning))).toOption =
      some (threeMornings.ending (.untilTime (rereadInstant lastMorning)) .omit) := by decide
  obtain rfl := Except.ok.inj ((ok_of_toOption hread).symm.trans hrule)
  have htwo : ∃ rows, (expand amsterdam (.iana "Etc/UTC") ((morning "Europe/Amsterdam").repeating
        (threeMornings.ending (.untilTime (rereadInstant lastMorning)) .omit))
      fiveDays).toOption = some rows ∧ rows.length = 2 := by decide +kernel
  obtain ⟨rows', hrows', htwo⟩ := htwo
  obtain rfl := Except.ok.inj ((ok_of_toOption hrows').symm.trans hbounds)
  omega

theorem rrule_until_kept_in_utc : ∃ rows, BoundsInstants utcOnly (.iana "Etc/UTC") (morning "Etc/UTC") fiveDays
      (written threeMornings (.utc lastMorningUtc)) lastMorningUtc rows := by
  have hrows : ∃ rows, (expand utcOnly (.iana "Etc/UTC")
      ((morning "Etc/UTC").repeating everyMorning) fiveDays).toOption = some rows ∧
      rows.length = 5 := by decide +kernel
  obtain ⟨rows, hrows, -⟩ := hrows
  refine ⟨rows, ?_⟩
  have hwritten : Ical.rruleValue (rendering alone) ⟨threeMornings, some lastMorningUtc⟩
      (.zoned ⟨⟨2024, 1, 1⟩, 9, 0, 0⟩ .utc) = .ok (written threeMornings (.utc lastMorningUtc)) := rfl
  obtain ⟨ctx, windowEnd, hctx, hend, hiff⟩ :=
    rrule_until_iff everyMorning_readable rfl rfl rfl hwritten (ok_of_toOption hrows)
  obtain rfl : ⟨(), newYear, nine⟩ = ctx := Except.ok.inj hctx
  obtain rfl : ⟨2024, 1, 7, by decide, by decide⟩ = windowEnd :=
    Except.ok.inj ((by decide : _ = windowEndOf fiveDays).trans hend)
  have hdates : ∃ dates, (occurrenceDates newYear everyMorning
      ⟨2024, 1, 7, by decide, by decide⟩ instanceCap).toOption = some dates ∧
      ∀ d ∈ dates, (utcOnly.toZoned () ⟨d, nine⟩).all fun start =>
        decide (instanceRid nine d ≤ rereadInstant lastMorningUtc) ==
          decide (start ≤ lastMorningUtc) := by decide +kernel
  obtain ⟨dates, hdates, hall⟩ := hdates
  refine hiff.mpr ⟨by decide, ?_⟩
  intro d hinstance hle start hstart _
  have hside := hall d ((mem_occurrenceDates_iff (ok_of_toOption hdates)).mpr ⟨hinstance, hle⟩)
  rw [hstart, Option.all_some, beq_iff_eq, decide_eq_decide] at hside
  exact hside

end Rrule
end SyncEngine
