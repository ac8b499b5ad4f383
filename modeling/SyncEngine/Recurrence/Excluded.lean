import SyncEngine.Recurrence.Series
import SyncEngine.Recurrence.Expand

/-!
# Excluded rules

The dates of an excluded rule are found as those of any rule, so the event's start is among them whether or not
it matches the rule, and its `UNTIL` counts by the day.  `Occurs` says what the instances of a rule should be, by
the exact start of each, and `NoSlipShows` when these two and the slips of the generators make no difference.
-/

namespace SyncEngine
namespace Recurrence

/-!
## What is found for a rule

What a rule is expanded to does not depend on the window but for where it ends.
-/

variable {rule : RecurrenceRule} {start windowEnd d : Date} {cap : Nat} {dates : List Date}

/-- What is taken of a period.  A yearly rule keeps to the months of `BYMONTH`, or to the start's. -/
def Chosen (rule : RecurrenceRule) (start d : Date) : Prop :=
  match rule.frequency with
  | .yearly => MonthSelected rule start d ∧ (rule.byMonth = [] → d.month = start.month)
  | _ => Selected rule start d

def Drawn (rule : RecurrenceRule) (start d : Date) : Prop :=
  (d = start ∨ InPeriod rule start d ∧ Chosen rule start d) ∧ InMonths rule d

def UntilDay (rule : RecurrenceRule) (d : Date) : Prop := ∀ t, rule.bound = .untilTime t → d ≤ t.date

/-- A date that is found: from the start on, up to `COUNT` or the day of `UNTIL`. -/
def Instance (rule : RecurrenceRule) (start d : Date) : Prop :=
  AmongFirst rule.bound.limit (fun d => Drawn rule start d ∧ start ≤ d ∧ UntilDay rule d) d

theorem le_clip_iff : d ≤ rule.bound.clip windowEnd ↔ UntilDay rule d ∧ d ≤ windowEnd := by
  unfold UntilDay RecurrenceBound.clip
  cases rule.bound with
  | unbounded => simp
  | count n pos => simp
  | untilTime t => simp

theorem candidate_iff_chosen (hsupported : Supported rule) {months : Option (List Nat)}
    (hmonths : parseByMonth rule.byMonth = .ok months) (hin : InMonths rule d) :
    Candidate rule months start d ↔ InPeriod rule start d ∧ Chosen rule start d := by
  by_cases hyearly : rule.frequency = .yearly
  · unfold Candidate InPeriod periodIndex Chosen
    rw [hyearly]
    show YearlyCandidate rule (months.getD [start.month]) start d ↔ _
    unfold YearlyCandidate
    rw [mem_months_iff hmonths hin]
    tauto
  · have hfreq : rule.frequency = .daily ∨ rule.frequency = .weekly ∨ rule.frequency = .monthly := by
      have hall := hsupported.frequency
      tauto
    rw [candidate_iff hsupported hfreq]
    unfold Chosen
    rcases hfreq with hf | hf | hf
    · rw [hf]
    · rw [hf]
    · rw [hf]

theorem occurrenceDates_drawn (h : occurrenceDates start rule windowEnd cap = .ok dates) : FirstOf rule.bound.limit
      (fun d => (Drawn rule start d ∧ start ≤ d ∧ UntilDay rule d) ∧ d ≤ windowEnd) dates := by
  obtain ⟨hsupported, months, hmonths, hfirst⟩ := occurrenceDates_first h
  refine hfirst.congr ?_
  intro d
  unfold Drawn
  rw [le_clip_iff]
  constructor
  · rintro ⟨hor, hge, ⟨huntil, hle⟩, hin⟩
    rw [candidate_iff_chosen hsupported hmonths hin] at hor
    exact ⟨⟨⟨hor, hin⟩, hge, huntil⟩, hle⟩
  · rintro ⟨⟨⟨hor, hin⟩, hge, huntil⟩, hle⟩
    rw [← candidate_iff_chosen hsupported hmonths hin] at hor
    exact ⟨hor, hge, ⟨huntil, hle⟩, hin⟩

theorem mem_occurrenceDates_iff (h : occurrenceDates start rule windowEnd cap = .ok dates) :
    d ∈ dates ↔ Instance rule start d ∧ d ≤ windowEnd := by
  rw [(occurrenceDates_drawn h).mem_iff, amongFirst_upTo_iff]
  exact Iff.rfl

theorem Instance.untilDay (h : Instance rule start d) : UntilDay rule d := h.1.2.2

end Recurrence

namespace Recurrence

open Fallible

variable {Zone : Type} {ctx : Context Zone} {windowEnd d : Date} {recurrence : RecurrenceSet}
variable {base : List Date} {rule : RecurrenceRule}

/-- A date found for a rule, whose start without what it has of a second is not past `UNTIL`. -/
def InstanceAt (rule : RecurrenceRule) (ctx : Context Zone) (d : Date) : Prop :=
  Instance rule ctx.date d ∧ untilAdmits rule.bound ctx.time d = true

/-- The code finds the date for one of the rules. -/
def Given (recurrence : RecurrenceSet) (ctx : Context Zone) (d : Date) : Prop :=
  ∃ rule ∈ recurrence.rules, InstanceAt rule ctx d

/-- The code finds the date for one of the excluded rules. -/
def Taken (recurrence : RecurrenceSet) (ctx : Context Zone) (d : Date) : Prop :=
  ∃ rule ∈ recurrence.excludedRules, Instance rule ctx.date d

theorem mem_ruleDates {dates : List Date} (h : ruleDates ctx windowEnd rule = .ok dates) :
    d ∈ dates ↔ InstanceAt rule ctx d ∧ d ≤ windowEnd := by
  obtain ⟨all, hall, h⟩ := bind_eq_ok.mp h
  obtain rfl := Except.ok.inj h
  rw [List.mem_filter, mem_occurrenceDates_iff hall]
  unfold InstanceAt
  tauto

theorem mem_baseDates (h : baseDates ctx windowEnd recurrence = .ok base) :
    d ∈ base ↔ d ≤ windowEnd ∧ Given recurrence ctx d ∧ ¬Taken recurrence ctx d := by
  obtain ⟨included, hincluded, h⟩ := bind_eq_ok.mp h
  obtain ⟨excluded, hexcluded, h⟩ := bind_eq_ok.mp h
  obtain rfl := Except.ok.inj h
  have hin := mem_flatten_mapM hincluded fun rule dates hok => mem_ruleDates (d := d) hok
  have hout := mem_flatten_mapM hexcluded fun rule dates hok => mem_occurrenceDates_iff (d := d) hok
  rw [mem_sortDedup, List.mem_filter, Bool.not_eq_true', ← Bool.not_eq_true, List.contains_iff_mem, hin, hout]
  constructor
  · rintro ⟨⟨rule, hrule, hinstance, hle⟩, hnot⟩
    exact ⟨hle, ⟨rule, hrule, hinstance⟩, fun ⟨x, hx, hinst⟩ => hnot ⟨x, hx, hinst, hle⟩⟩
  · rintro ⟨hle, ⟨rule, hrule, hinstance⟩, hnot⟩
    exact ⟨⟨rule, hrule, hinstance, hle⟩, fun ⟨x, hx, hinst, _⟩ => hnot ⟨x, hx, hinst⟩⟩

/-! ## The exact instances -/

theorem LocalDateTime.date_le {a b : LocalDateTime} (h : a ≤ b) : a.date ≤ b.date := by
  have hnanos : a.nanos ≤ b.nanos := h
  have ha := a.time.nanos_bounds
  have hb := b.time.nanos_bounds
  unfold LocalDateTime.nanos at hnanos
  unfold nanosPerDay at *
  show a.date.number ≤ b.date.number
  omega

theorem instanceRid_le (time : Time) (d : Date) : instanceRid time d ≤ ⟨d, time⟩ := by
  show (instanceRid time d).nanos ≤ LocalDateTime.nanos ⟨d, time⟩
  unfold LocalDateTime.nanos Time.nanos instanceRid
  dsimp only
  omega

/-- The series of a rule: of a yearly one as RFC 5545 has it. -/
def Serial (rule : RecurrenceRule) (start d : Date) : Prop :=
  match rule.frequency with
  | .yearly => InYearly rule start d
  | _ => InSeries rule start d

def MatchesStart (rule : RecurrenceRule) (start : Date) : Prop :=
  match rule.frequency with
  | .yearly => YearSelected rule start start
  | _ => Selected rule start start ∧ InMonths rule start

/-- The instance of the date starts no later than `UNTIL`. -/
def UntilMoment (rule : RecurrenceRule) (ctx : Context Zone) (d : Date) : Prop :=
  ∀ t, rule.bound = .untilTime t → (⟨d, ctx.time⟩ : LocalDateTime) ≤ t

/-- An instance as it should be: from the start on, up to `COUNT` or the very moment of `UNTIL`. -/
def Occurs (rule : RecurrenceRule) (ctx : Context Zone) (d : Date) : Prop :=
  AmongFirst rule.bound.limit (fun d => Serial rule ctx.date d ∧ ctx.date ≤ d ∧ UntilMoment rule ctx d) d

def Included (recurrence : RecurrenceSet) (ctx : Context Zone) (d : Date) : Prop :=
  ∃ rule ∈ recurrence.rules, Occurs rule ctx d

/-- An instance of an excluded rule; the start only where the rule's parts select it. -/
def Removed (recurrence : RecurrenceSet) (ctx : Context Zone) (d : Date) : Prop :=
  ∃ rule ∈ recurrence.excludedRules, Occurs rule ctx d ∧ (d = ctx.date → MatchesStart rule ctx.date)

/-- The base instances are those of the rules without those the excluded rules match. -/
def RemovesMatches (recurrence : RecurrenceSet) (ctx : Context Zone) (windowEnd : Date) (base : List Date) : Prop :=
  ∀ d, d ∈ base ↔ d ≤ windowEnd ∧ Included recurrence ctx d ∧ ¬Removed recurrence ctx d

/-! ## What the generators make of a rule -/

/-- A date of a yearly series that is not generated: one outside the months of `BYMONTH`, which the start can be, or,
where `BYDAY` or `BYMONTHDAY` stand without it, outside the start's month. -/
def Slips (rule : RecurrenceRule) (start d : Date) : Prop :=
  rule.frequency = .yearly ∧
    (¬InMonths rule d ∨ rule.byMonth = [] ∧ (rule.byDay ≠ [] ∨ rule.byMonthDay ≠ []) ∧ d.month ≠ start.month)

theorem drawn_iff {start : Date} : Drawn rule start d ↔ Serial rule start d ∧ ¬Slips rule start d := by
  unfold Drawn Serial Slips Chosen
  by_cases hyearly : rule.frequency = .yearly
  · have hperiod : InPeriod rule start d ↔ (d.year - start.year) % rule.interval = 0 := by
      unfold InPeriod periodIndex
      rw [hyearly]
    rw [hperiod, hyearly]
    unfold InYearly YearSelected
    by_cases hstart : d = start
    · subst hstart
      tauto
    · simp only [hstart, false_or, true_and]
      tauto
  · have hserial : (match rule.frequency with
        | .yearly => InYearly rule start d
        | _ => InSeries rule start d) = InSeries rule start d := by
      split
      · exact absurd (by assumption) hyearly
      · rfl
    have hchosen : (match rule.frequency with
        | .yearly => MonthSelected rule start d ∧ (rule.byMonth = [] → d.month = start.month)
        | _ => Selected rule start d) = Selected rule start d := by
      split
      · exact absurd (by assumption) hyearly
      · rfl
    rw [hserial, hchosen]
    unfold InSeries
    tauto

theorem Occurs.instance (h : Occurs rule ctx d) (hslips : ¬Slips rule ctx.date d) : InstanceAt rule ctx d := by
  obtain ⟨⟨hserial, hge, huntil⟩, hfew⟩ := h
  have hday : UntilDay rule d := by
    intro t ht
    have hle := LocalDateTime.date_le (huntil t ht)
    exact hle
  refine ⟨⟨⟨drawn_iff.mpr ⟨hserial, hslips⟩, hge, hday⟩, ?_⟩, ?_⟩
  · intro c hc
    refine lt_of_le_of_lt (Set.encard_le_encard ?_) (hfew c hc)
    rintro b ⟨⟨hdrawn, hge', -⟩, hlt⟩
    refine ⟨⟨(drawn_iff.mp hdrawn).1, hge', ?_⟩, hlt⟩
    intro t ht
    rw [ht] at hc
    cases hc
  · unfold untilAdmits
    cases hbound : rule.bound with
    | unbounded => rfl
    | count n pos => rfl
    | untilTime t => exact decide_eq_true ((instanceRid_le ctx.time d).trans (huntil t hbound))

/-- A date that is found may be no instance: that of `UNTIL`, where the instance would start after it, and one
`COUNT` does not reach when a yearly rule leaves no date out. -/
def Strays (rule : RecurrenceRule) (ctx : Context Zone) (d : Date) : Prop :=
  (∃ t, rule.bound = .untilTime t ∧ d = t.date ∧ t < ⟨d, ctx.time⟩) ∨
    (rule.frequency = .yearly ∧ rule.bound.limit ≠ none ∧ ¬Occurs rule ctx d)

theorem Instance.occurs_or_strays (h : Instance rule ctx.date d) : Occurs rule ctx d ∨ Strays rule ctx d := by
  obtain ⟨⟨hdrawn, hge, huntil⟩, hfew⟩ := h
  have hserial := (drawn_iff.mp hdrawn).1
  cases hbound : rule.bound with
  | unbounded =>
    refine .inl ⟨⟨hserial, hge, fun t ht => ?_⟩, fun c hc => ?_⟩
    · cases hbound.symm.trans ht
    · rw [hbound] at hc
      cases hc
  | count n pos =>
    by_cases hyearly : rule.frequency = .yearly
    · by_cases hoccurs : Occurs rule ctx d
      · exact .inl hoccurs
      · exact .inr (.inr ⟨hyearly, by rw [hbound]; exact Option.some_ne_none n, hoccurs⟩)
    · have hmoment : ∀ b, UntilMoment rule ctx b := by
        intro b t ht
        cases hbound.symm.trans ht
      refine .inl ⟨⟨hserial, hge, hmoment d⟩, fun c hc => lt_of_le_of_lt (Set.encard_le_encard ?_) (hfew c hc)⟩
      rintro b ⟨⟨hb, hge', -⟩, hlt⟩
      refine ⟨⟨drawn_iff.mpr ⟨hb, fun hslips => hyearly hslips.1⟩, hge', fun t ht => ?_⟩, hlt⟩
      cases hbound.symm.trans ht
  | untilTime t =>
    by_cases hle : (⟨d, ctx.time⟩ : LocalDateTime) ≤ t
    · refine .inl ⟨⟨hserial, hge, fun t' ht => ?_⟩, fun c hc => ?_⟩
      · cases hbound.symm.trans ht
        exact hle
      · rw [hbound] at hc
        cases hc
    · have hlt := not_le.mp hle
      have hday := LocalDateTime.date_le (le_of_lt hlt)
      exact .inr (.inl ⟨t, hbound, le_antisymm (huntil t hbound) hday, hlt⟩)

theorem day_of_not_untilAdmits {start : Date} (h : Instance rule start d)
    (hnot : untilAdmits rule.bound ctx.time d ≠ true) :
    ∃ t, rule.bound = .untilTime t ∧ t < instanceRid ctx.time d ∧ d = t.date := by
  unfold untilAdmits at hnot
  cases hbound : rule.bound with
  | unbounded =>
    rw [hbound] at hnot
    exact absurd rfl hnot
  | count n pos =>
    rw [hbound] at hnot
    exact absurd rfl hnot
  | untilTime t =>
    rw [hbound] at hnot
    have hlt : t < instanceRid ctx.time d := by
      rw [← not_le]
      intro hle
      exact hnot (decide_eq_true hle)
    have hday := LocalDateTime.date_le (le_of_lt hlt)
    exact ⟨t, rfl, hlt, le_antisymm (h.untilDay t hbound) hday⟩

/-- Up to the window's end, no slip shows in what the rules and the excluded rules come to together. -/
structure NoSlipShows (recurrence : RecurrenceSet) (ctx : Context Zone) (windowEnd : Date) : Prop where
  /-- The start an excluded rule does not match, and a date it strays to, are removed by another one, if instances. -/
  taken : ∀ rule ∈ recurrence.excludedRules, ∀ d, d ≤ windowEnd → Instance rule ctx.date d →
    Strays rule ctx d ∨ d = ctx.date ∧ ¬MatchesStart rule ctx.date → Included recurrence ctx d → Removed recurrence ctx d
  /-- A date a rule strays to is another one's instance, or taken. -/
  given : ∀ rule ∈ recurrence.rules, ∀ d, d ≤ windowEnd → InstanceAt rule ctx d → Strays rule ctx d →
    Included recurrence ctx d ∨ Taken recurrence ctx d
  /-- A date a yearly rule misses is found for another one, or rightly removed. -/
  missed : ∀ rule ∈ recurrence.rules, ∀ d, d ≤ windowEnd → Occurs rule ctx d → Slips rule ctx.date d →
    Given recurrence ctx d ∨ Removed recurrence ctx d
  /-- A date an excluded yearly rule misses is taken for another one, if found. -/
  left : ∀ rule ∈ recurrence.excludedRules, ∀ d, d ≤ windowEnd → Occurs rule ctx d → Slips rule ctx.date d →
    (d = ctx.date → MatchesStart rule ctx.date) → Given recurrence ctx d → Taken recurrence ctx d

theorem noSlipShows_of_removesMatches (h : baseDates ctx windowEnd recurrence = .ok base)
    (hexact : RemovesMatches recurrence ctx windowEnd base) : NoSlipShows recurrence ctx windowEnd := by
  have hsame : ∀ d, d ≤ windowEnd → (Given recurrence ctx d ∧ ¬Taken recurrence ctx d ↔
      Included recurrence ctx d ∧ ¬Removed recurrence ctx d) := by
    intro d hle
    have hiff := (mem_baseDates (d := d) h).symm.trans (hexact d)
    simpa only [hle, true_and] using hiff
  refine ⟨?_, ?_, ?_, ?_⟩
  · intro rule hrule d hle hinstance _ hincluded
    by_contra hnot
    exact ((hsame d hle).mpr ⟨hincluded, hnot⟩).2 ⟨rule, hrule, hinstance⟩
  · intro rule hrule d hle hinstance _
    by_contra hnot
    rw [not_or] at hnot
    exact hnot.1 ((hsame d hle).mp ⟨⟨rule, hrule, hinstance⟩, hnot.2⟩).1
  · intro rule hrule d hle hoccurs _
    by_contra hnot
    rw [not_or] at hnot
    exact hnot.1 ((hsame d hle).mpr ⟨⟨rule, hrule, hoccurs⟩, hnot.2⟩).1
  · intro rule hrule d hle hoccurs _ hmatches hgiven
    by_contra hnot
    exact ((hsame d hle).mp ⟨hgiven, hnot⟩).2 ⟨rule, hrule, hoccurs, hmatches⟩

namespace NoSlipShows

variable (hcond : NoSlipShows recurrence ctx windowEnd) (hle : d ≤ windowEnd)
include hcond hle

theorem removed (hincluded : Included recurrence ctx d) (htaken : Taken recurrence ctx d) : Removed recurrence ctx d := by
  obtain ⟨rule, hrule, hinstance⟩ := htaken
  rcases hinstance.occurs_or_strays with hoccurs | hstrays
  · by_cases hmatches : d = ctx.date → MatchesStart rule ctx.date
    · exact ⟨rule, hrule, hoccurs, hmatches⟩
    · exact hcond.taken rule hrule d hle hinstance (.inr (Classical.not_imp.mp hmatches)) hincluded
  · exact hcond.taken rule hrule d hle hinstance (.inl hstrays) hincluded

theorem included (hgiven : Given recurrence ctx d) (htaken : ¬Taken recurrence ctx d) : Included recurrence ctx d := by
  obtain ⟨rule, hrule, hinstance⟩ := hgiven
  rcases hinstance.1.occurs_or_strays with hoccurs | hstrays
  · exact ⟨rule, hrule, hoccurs⟩
  · exact (hcond.given rule hrule d hle hinstance hstrays).resolve_right htaken

theorem found (hincluded : Included recurrence ctx d) (hremoved : ¬Removed recurrence ctx d) : Given recurrence ctx d := by
  obtain ⟨rule, hrule, hoccurs⟩ := hincluded
  by_cases hslips : Slips rule ctx.date d
  · exact (hcond.missed rule hrule d hle hoccurs hslips).resolve_right hremoved
  · exact ⟨rule, hrule, hoccurs.instance hslips⟩

theorem takes (hgiven : Given recurrence ctx d) (hremoved : Removed recurrence ctx d) : Taken recurrence ctx d := by
  obtain ⟨rule, hrule, hoccurs, hmatches⟩ := hremoved
  by_cases hslips : Slips rule ctx.date d
  · exact hcond.left rule hrule d hle hoccurs hslips hmatches hgiven
  · exact ⟨rule, hrule, (hoccurs.instance hslips).1⟩

end NoSlipShows

theorem removesMatches_iff (h : baseDates ctx windowEnd recurrence = .ok base) :
    RemovesMatches recurrence ctx windowEnd base ↔ NoSlipShows recurrence ctx windowEnd := by
  refine ⟨noSlipShows_of_removesMatches h, fun hcond d => ?_⟩
  rw [mem_baseDates h]
  refine and_congr_right fun hle => ?_
  constructor
  · rintro ⟨hgiven, hnot⟩
    exact ⟨hcond.included hle hgiven hnot, fun hremoved => hnot (hcond.takes hle hgiven hremoved)⟩
  · rintro ⟨hincluded, hnot⟩
    exact ⟨hcond.found hle hincluded hnot, fun htaken => hnot (hcond.removed hle hincluded htaken)⟩

/-! ## What an event is expanded to -/

section Expansion

variable {tz : Tzdb Zone} {hostZone : TimeZoneId} {event : Event} {horizon : Horizon} {rows : List OccurrenceRow}

/-- A master that recurs, without overrides. -/
structure Event.Recurs (event : Event) (recurrence : RecurrenceSet) : Prop where
  cancelled : event.cancelled = false
  recurrenceId : event.recurrenceId = none
  rules : recurrence.rules ≠ []
  recurs : event.recurrence = some recurrence

def RowsOf (tz : Tzdb Zone) (event : Event) (horizon : Horizon) (ctx : Context Zone) (base : List Date)
    (rows : List OccurrenceRow) : Prop :=
  ∃ ranges, base.mapM (fun d => resolveRange tz ctx.zone ⟨d, ctx.time⟩ event.duration) = .ok ranges ∧
    rows = sortRows ((ranges.map fun range => rowIn tz event horizon range none).reduceOption)

theorem expand_eq_recurring (hrecurs : event.Recurs recurrence) :
    expand tz hostZone event horizon = recurring tz hostZone event horizon recurrence := by
  unfold expand
  rw [hrecurs.cancelled, hrecurs.recurrenceId, hrecurs.recurs]
  have hkept : (some recurrence).filter (!·.rules.isEmpty) = some recurrence := by
    rw [Option.filter_some_pos]
    simpa using hrecurs.rules
  rw [hkept]
  rfl

end Expansion

/-- A database with one zone, whose wall clock is ahead of UTC by so many nanoseconds. -/
def Sample.zoneAhead (name : String) (ahead : LocalDateTime → Int) : Tzdb Unit where
  get name' := if name' = name then some () else none
  utc := ()
  toZoned _ wall :=
    let nanos := wall.nanos - ahead wall - Civil.beforeYear (-9999) * nanosPerDay
    if h : 0 ≤ nanos ∧ nanos.toNat < UtcDateTime.rangeNanos then some ⟨nanos.toNat, h.2⟩ else none
  addDays _ t days := t.checkedAdd (days * nanosPerDay.toNat)
  addTime t seconds nanoseconds := t.checkedAdd (seconds * second + nanoseconds)
  version := "2025b"

open Sample

def Sample.utcOnly : Tzdb Unit := zoneAhead "Etc/UTC" fun _ => 0

theorem Sample.nine_valid : 9 < 24 ∧ 0 < 60 ∧ 0 < 60 ∧ 0 < 1000000000 := by decide

def Sample.nine : Time := ⟨9, 0, 0, 0, nine_valid⟩

def Sample.threeDays : RecurrenceRule := { RecurrenceRule.new .daily with bound := .count 3 three_pos }

def Sample.wednesdays : RecurrenceRule := { RecurrenceRule.new .weekly with byDay := [⟨.we, none, NDay.every_nonzero⟩] }

def Sample.mondays : RecurrenceRule :=
  { RecurrenceRule.new .weekly with byDay := [⟨.mo, none, NDay.every_nonzero⟩] }

def Sample.without (rule : RecurrenceRule) : RecurrenceSet := ⟨[threeDays], [rule], [], List.Pairwise.nil⟩

def Sample.meeting (recurrence : RecurrenceSet) : Event :=
  ⟨"meeting", .zoned ⟨newYear, nine⟩ (.iana "Etc/UTC"), Duration.zero, false, some recurrence, none⟩

def Sample.month : Horizon :=
  ⟨⟨379409184000000000000, by decide⟩, ⟨379411862400000000000, by decide⟩, by decide⟩

def Sample.atNine : Context Unit := ⟨(), newYear, nine⟩

def Sample.january2 : Date := ⟨2024, 1, 2, year_inRange, by decide⟩

def Sample.february2 : Date := ⟨2024, 2, 2, year_inRange, by decide⟩

theorem newYear_included : Included (without wednesdays) atNine newYear := by
  have hseries : Serial threeDays newYear newYear := ⟨.inl rfl, fun h => absurd rfl h⟩
  refine ⟨threeDays, List.mem_singleton_self _, start_amongFirst threeDays.bound.limit_pos ⟨hseries, le_refl _, ?_⟩ ?_⟩
  · intro t ht
    cases ht
  · exact fun d hd => hd.2.1

theorem not_matches_newYear : ¬MatchesStart wednesdays newYear := by
  rintro ⟨⟨hby, -⟩, -⟩
  obtain ⟨nd, hnd, hnames⟩ := hby (by decide)
  rw [List.mem_singleton.mp hnd] at hnames
  have hday := hnames.1
  revert hday
  decide

end Recurrence
end SyncEngine
