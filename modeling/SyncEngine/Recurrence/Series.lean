import Mathlib
import SyncEngine.Recurrence.Generators

/-!
# The dates of a rule

A rule's series is the start and every date of a period the interval comes to that the rule's parts select,
in the months `BYMONTH` names.  The dates the rule is expanded to are the first of the series in the window.
-/

namespace SyncEngine
namespace Recurrence

open Civil Fallible

variable {rule : RecurrenceRule} {start windowEnd : Date} {cap : Nat} {dates : List Date}

/-! ## The start -/

variable {acc acc₁ : Acc}

theorem emit_start {C : Date → Prop} {stop : Bool} (hout : acc.out = [])
    (hcount : ∀ c, acc.count = some c → 0 < c) (hemit : acc.emit acc.start = .ok (stop, acc₁)) :
    SameBounds acc acc₁ ∧ (stop = true → FirstOf acc.count (Due C acc) acc₁.out) ∧
      (stop = false → ∀ b, b ≤ acc.start.number + 1 → Upto C acc₁ b) := by
  have hfirst : ∀ e, Due C acc e → ∀ b, b ≤ acc.start.number + 1 → e = acc.start ∨ e.number < b → e = acc.start := by
    intro e hdue b hb hor
    rcases hor with hstart | hlt
    · exact hstart
    · have hge : acc.start.number ≤ e.number := (Acc.admits_iff.mp hdue.2).1
      exact Date.number_injective (by omega)
  rcases emit_cases hemit with ⟨hadmits, rfl, rfl⟩ | ⟨-, hmem, -, -⟩ | ⟨hadmits, -, rfl, rfl⟩
  · refine ⟨.refl _, (fun he => nomatch he), ?_⟩
    intro _ b hb
    refine ⟨by rw [hout]; exact List.Pairwise.nil, ?_, ?_⟩
    · intro e
      rw [hout]
      refine ⟨fun he => absurd he List.not_mem_nil, ?_⟩
      rintro ⟨hdue, hor⟩
      have hstart := hfirst e hdue b hb hor
      have hadm := hdue.2
      rw [hstart, hadmits] at hadm
      exact nomatch hadm
    · intro c hc
      rw [hout]
      exact hcount c hc
  · rw [hout] at hmem
    exact absurd hmem List.not_mem_nil
  · have hout₁ : (acc.with (acc.out ++ [acc.start])).out = [acc.start] := by
      show acc.out ++ [acc.start] = [acc.start]
      rw [hout]
      rfl
    refine ⟨⟨rfl, rfl, rfl, rfl⟩, ?_, ?_⟩
    · intro hfull
      have hone : acc.count = some 1 := by
        have hany : acc.count.any (fun c => decide (c ≤ (acc.out ++ [acc.start]).length)) = true := hfull
        rw [hout] at hany
        cases hc : acc.count with
        | none =>
          rw [hc] at hany
          exact nomatch hany
        | some c =>
          rw [hc] at hany
          have hle : c ≤ 1 := of_decide_eq_true hany
          have hpos := hcount c hc
          congr 1
          omega
      rw [hout₁]
      refine ⟨List.pairwise_singleton _ _, ?_, ?_, ?_⟩
      · intro a ha
        rw [List.mem_singleton.mp ha]
        exact ⟨.inl rfl, hadmits⟩
      · intro c hc
        rw [hone] at hc
        rw [← Option.some.inj hc]
        exact le_refl _
      · intro a hdue hnot
        refine ⟨hone, ?_⟩
        intro b hb
        rw [List.mem_singleton.mp hb]
        refine lt_of_le_of_ne (Acc.admits_iff.mp hdue.2).1 ?_
        rintro rfl
        exact hnot (List.mem_singleton_self _)
    · intro hroom b hb
      refine ⟨by rw [hout₁]; exact List.pairwise_singleton _ _, ?_, ?_⟩
      · intro e
        rw [hout₁, List.mem_singleton]
        constructor
        · rintro rfl
          exact ⟨⟨.inl rfl, hadmits⟩, .inl rfl⟩
        · rintro ⟨hdue, hor⟩
          exact hfirst e hdue b hb hor
      · intro c hc
        have hnot : acc.count.any (fun c => decide (c ≤ (acc.out ++ [acc.start]).length)) = false := hroom
        have hc' : acc.count = some c := hc
        rw [hc'] at hnot
        exact Nat.lt_of_not_le (of_decide_eq_false hnot)

/-! ## What a rule is expanded to -/

def Candidate (rule : RecurrenceRule) (months : Option (List Nat)) (start d : Date) : Prop :=
  match rule.frequency with
  | .daily => DailyCandidate rule start d
  | .weekly => WeeklyCandidate rule start d
  | .monthly => MonthlyCandidate rule start d
  | .yearly => YearlyCandidate rule (months.getD [start.month]) start d
  | _ => False

theorem monthSet_spec (months : List Nat) : (monthSet months).Pairwise (· < ·) ∧
    ∀ m, m ∈ monthSet months ↔ 1 ≤ m ∧ m ≤ 12 ∧ m ∈ months := by
  unfold monthSet
  refine ⟨(List.pairwise_lt_range' 1).filter _, ?_⟩
  intro m
  rw [List.mem_filter, List.mem_range', List.contains_iff_mem]
  constructor
  · rintro ⟨⟨i, hi, rfl⟩, hm⟩
    exact ⟨by omega, by omega, hm⟩
  · rintro ⟨h₁, h₂, hm⟩
    exact ⟨⟨m - 1, by omega, by omega⟩, hm⟩

theorem parseMonth_bounds {entry : String} {m : Nat} (h : parseMonth entry = .ok m) : 1 ≤ m ∧ m ≤ 12 := by
  unfold parseMonth at h
  dsimp only at h
  split at h
  · exact nomatch h
  · split at h
    · rename_i hrange
      rw [← Except.ok.inj h]
      simpa using hrange
    · exact nomatch h

variable {months : Option (List Nat)}

theorem parseByMonth_spec (h : parseByMonth rule.byMonth = .ok months) :
    (months = none ↔ rule.byMonth = []) ∧ ∀ ms, months = some ms → ms.Pairwise (· < ·) ∧
      ∀ m, m ∈ ms ↔ ∃ entry ∈ rule.byMonth, parseMonth entry = .ok m := by
  unfold parseByMonth at h
  by_cases hnil : rule.byMonth = []
  · rw [if_pos (by rw [hnil]; rfl)] at h
    obtain rfl := Except.ok.inj h
    exact ⟨⟨fun _ => hnil, fun _ => rfl⟩, fun _ he => nomatch he⟩
  · rw [if_neg (by rwa [List.isEmpty_iff])] at h
    obtain ⟨parsed, hparsed, h⟩ := bind_eq_ok.mp h
    obtain rfl := Except.ok.inj h
    refine ⟨⟨(fun he => nomatch he), fun he => absurd he hnil⟩, ?_⟩
    intro ms hms
    obtain rfl := Option.some.inj hms
    obtain ⟨hsorted, hmem⟩ := monthSet_spec parsed
    refine ⟨hsorted, ?_⟩
    intro m
    rw [hmem, mem_mapM hparsed]
    constructor
    · exact fun h => h.2.2
    · rintro ⟨entry, hentry, hm⟩
      have hbounds := parseMonth_bounds hm
      exact ⟨hbounds.1, hbounds.2, entry, hentry, hm⟩

variable {d : Date}

theorem inMonths_iff (h : parseByMonth rule.byMonth = .ok months) :
    months.all (·.contains d.month) = true ↔ InMonths rule d := by
  obtain ⟨hnone, hsome⟩ := parseByMonth_spec h
  unfold InMonths
  cases hm : months with
  | none =>
    have hnil := hnone.mp hm
    simp [hnil]
  | some ms =>
    have hne : rule.byMonth ≠ [] := by
      intro hnil
      rw [hnone.mpr hnil] at hm
      exact nomatch hm
    rw [Option.all_some, List.contains_iff_mem, (hsome ms hm).2]
    exact ⟨fun h _ => h, fun h => h hne⟩

theorem mem_months_iff (h : parseByMonth rule.byMonth = .ok months) (hin : InMonths rule d) :
    d.month ∈ months.getD [start.month] ↔ (rule.byMonth = [] → d.month = start.month) := by
  obtain ⟨hnone, hsome⟩ := parseByMonth_spec h
  cases hm : months with
  | none =>
    have hnil := hnone.mp hm
    simp [hnil]
  | some ms =>
    have hne : rule.byMonth ≠ [] := by
      intro hnil
      rw [hnone.mpr hnil] at hm
      exact nomatch hm
    rw [Option.getD_some, (hsome ms hm).2]
    exact ⟨fun _ hnil => absurd hnil hne, fun _ => hin hne⟩

theorem RecurrenceBound.limit_pos (bound : RecurrenceBound) (c : Nat) (h : bound.limit = some c) : 0 < c := by
  cases bound with
  | unbounded => exact nomatch h
  | count n pos =>
    rw [← Option.some.inj h]
    exact pos
  | untilTime t => exact nomatch h

/-- What is asked of a rule before it is expanded. -/
structure Supported (rule : RecurrenceRule) : Prop where
  frequency : rule.frequency = .daily ∨ rule.frequency = .weekly ∨ rule.frequency = .monthly ∨
    rule.frequency = .yearly
  rscale : rule.rscale = none
  byYearDay : rule.byYearDay = []
  byWeekNo : rule.byWeekNo = []
  bySetPosition : rule.bySetPosition = []
  byTime : rule.byHour = [] ∧ rule.byMinute = [] ∧ rule.bySecond = []
  plain : rule.frequency = .daily ∨ rule.frequency = .weekly → ∀ nd ∈ rule.byDay, nd.nthOfPeriod = none
  monthRelative : rule.frequency = .yearly → rule.byMonth = [] → ∀ nd ∈ rule.byDay, nd.nthOfPeriod = none

theorem hasNth_eq_false_iff :
    rule.byDay.any (·.nthOfPeriod.isSome) = false ↔ ∀ nd ∈ rule.byDay, nd.nthOfPeriod = none := by
  simp only [List.any_eq_false, Bool.not_eq_true, Option.isSome_eq_false_iff, Option.isNone_iff_eq_none]

theorem refuse_ne_ok {what : String} : refuse what ≠ .ok () := fun h => nomatch h

theorem checkSupported_eq_ok_iff : checkSupported rule = .ok () ↔ Supported rule := by
  constructor
  · intro h
    unfold checkSupported at h
    dsimp only at h
    split_ifs at h with hrscale hfreq hyearDay hweekNo hsetPos htime hnth hnthYear
    all_goals first | exact absurd h refuse_ne_ok | skip
    refine ⟨?_, ?_, ?_, ?_, ?_, ?_, ?_, ?_⟩
    · revert hfreq
      cases rule.frequency <;> decide
    · simpa using hrscale
    · simpa using hyearDay
    · simpa using hweekNo
    · simpa using hsetPos
    · simp only [Bool.or_eq_true, Bool.not_eq_true', List.isEmpty_eq_false_iff, not_or, not_not] at htime
      exact ⟨htime.1.1, htime.1.2, htime.2⟩
    · intro hf
      rw [← hasNth_eq_false_iff]
      rcases hf with hf | hf
      · simpa [hf] using hnth
      · simpa [hf] using hnth
    · intro hf hnil
      rw [← hasNth_eq_false_iff]
      simpa [hf, hnil] using hnthYear
  · intro h
    have hnth : (rule.byDay.any (·.nthOfPeriod.isSome) &&
        (rule.frequency == .daily || rule.frequency == .weekly)) = false := by
      by_cases hf : rule.frequency = .daily ∨ rule.frequency = .weekly
      · rw [hasNth_eq_false_iff.mpr (h.plain hf)]
        rfl
      · simp only [not_or] at hf
        simp [hf.1, hf.2]
    have hnthYear : (rule.byDay.any (·.nthOfPeriod.isSome) && rule.frequency == .yearly &&
        rule.byMonth.isEmpty) = false := by
      by_cases hf : rule.frequency = .yearly ∧ rule.byMonth = []
      · rw [hasNth_eq_false_iff.mpr (h.monthRelative hf.1 hf.2)]
        rfl
      · by_cases hyearly : rule.frequency = .yearly
        · have hne : rule.byMonth ≠ [] := fun hnil => hf ⟨hyearly, hnil⟩
          simp [hne]
        · simp [hyearly]
    unfold checkSupported
    dsimp only
    rw [hnth, hnthYear, h.rscale, h.byYearDay, h.byWeekNo, h.bySetPosition, h.byTime.1, h.byTime.2.1, h.byTime.2.2]
    rcases h.frequency with hf | hf | hf | hf
    all_goals
      rw [hf]
      rfl

theorem generate_spec {acc' : Acc} (hsame : SameBounds acc acc₁)
    (hstart : acc.start = start) (hsupported : Supported rule)
    (hmonths : parseByMonth rule.byMonth = .ok months) (hacc : acc.byMonth = months)
    (hupto : ∀ b, b ≤ start.number + 1 → Upto (Candidate rule months start) acc₁ b)
    (hgen : generate rule acc₁ = .ok acc') :
    FirstOf acc.count (Due (Candidate rule months start) acc) acc'.out := by
  have hstart₁ : acc₁.start = start := hsame.start.trans hstart
  have hrounds : acc₁.upper.number - start.number + 365 < roundsTo acc₁ := by
    unfold roundsTo
    rw [hstart₁]
    omega
  suffices hdone : FirstOf acc₁.count (Due (Candidate rule months start) acc₁) acc'.out by
    rwa [hsame.count, hsame.due] at hdone
  have hnotSub := hsupported.frequency
  unfold generate at hgen
  unfold Candidate at hupto ⊢
  cases hfreq : rule.frequency with
  | daily =>
    rw [hfreq] at hgen hupto
    dsimp only at hgen hupto ⊢
    rw [hstart₁] at hgen
    exact generateDaily_spec (hsupported.plain (.inl hfreq)) hstart₁ (by simp) (hupto _ (le_refl _)) (by omega) hgen
  | weekly =>
    rw [hfreq] at hgen hupto
    dsimp only at hgen hupto ⊢
    obtain ⟨anchor, hanchor, hgen⟩ := bind_eq_ok.mp hgen
    unfold firstAnchor at hanchor
    rw [hstart₁, addDays_eq_ok_iff] at hanchor
    have hoffset := Date.weekday_eq_iff.mp (rfl : start.weekday = start.weekday)
    have hlt := rule.firstDayOfWeek.offset_lt
    unfold weekOffset at hanchor
    refine generateWeekly_spec hstart₁ ?_ ?_ (hupto _ (by omega)) (by omega) hgen
    · rw [Date.weekday_eq_iff]
      omega
    · have hsameWeek : weekIndex rule.firstDayOfWeek anchor = weekIndex rule.firstDayOfWeek start := by
        unfold weekIndex
        omega
      rw [hsameWeek, sub_self]
      rfl
  | monthly =>
    rw [hfreq] at hgen hupto
    dsimp only at hgen hupto ⊢
    rw [hstart₁] at hgen
    have hin := start.inMonth
    have hlength := (monthLength_bounds (start.monthIndex / 12) (start.monthIndex % 12 + 1).toNat).2
    have hsucc := monthStart_succ start.monthIndex
    have hindex : 12 * start.year + ((start.month : Int) - 1) = start.monthIndex := rfl
    refine generateMonthly_spec hstart₁ start.isDate.1 start.isDate.2.1 ?_ (hupto _ ?_) ?_ hgen
    · rw [hindex, sub_self]
      rfl
    · rw [hindex]
      omega
    · rw [hindex]
      omega
  | yearly =>
    rw [hfreq] at hgen hupto
    dsimp only at hgen hupto ⊢
    split at hgen
    · have hbyMonth : acc₁.byMonth = months := hsame.byMonth.trans hacc
      rw [hstart₁, hbyMonth] at hgen
      obtain ⟨-, hsome⟩ := parseByMonth_spec hmonths
      have hin := inYear start
      have hsucc := beforeYear_succ start.year
      have hlength : yearLength start.year ≤ 366 := by
        unfold yearLength
        split <;> omega
      have hmonthsOk : (months.getD [start.month]).Pairwise (· < ·) ∧
          ∀ m ∈ months.getD [start.month], 1 ≤ m ∧ m ≤ 12 := by
        cases hm : months with
        | none =>
          refine ⟨List.pairwise_singleton _ _, ?_⟩
          intro m hmem
          rw [List.mem_singleton.mp hmem]
          exact ⟨start.isDate.1, start.isDate.2.1⟩
        | some ms =>
          obtain ⟨hsorted, hmem⟩ := hsome ms hm
          refine ⟨hsorted, ?_⟩
          intro m hin
          obtain ⟨entry, -, hparse⟩ := (hmem m).mp hin
          exact parseMonth_bounds hparse
      exact generateYearly_spec hstart₁ hmonthsOk.1 hmonthsOk.2 (by simp) (hupto _ (by omega)) (by omega) hgen
    · exact nomatch hgen
  | hourly => simp [hfreq] at hnotSub
  | minutely => simp [hfreq] at hnotSub
  | secondly => simp [hfreq] at hnotSub

def firstDates (limit : Option Nat) (out : List Date) : List Date :=
  match limit with
  | some limit => (out.insertionSort (· ≤ ·)).take limit
  | none => out.insertionSort (· ≤ ·)

theorem occurrenceDates_first (h : occurrenceDates start rule windowEnd cap = .ok dates) :
    Supported rule ∧ ∃ months, parseByMonth rule.byMonth = .ok months ∧ FirstOf rule.bound.limit
        (fun d => (d = start ∨ Candidate rule months start d) ∧ start ≤ d ∧ d ≤ rule.bound.clip windowEnd ∧
          InMonths rule d) dates := by
  unfold occurrenceDates at h
  obtain ⟨⟨⟩, hsupported, h⟩ := bind_eq_ok.mp h
  rw [checkSupported_eq_ok_iff] at hsupported
  obtain ⟨months, hmonths, h⟩ := bind_eq_ok.mp h
  refine ⟨hsupported, months, hmonths, ?_⟩
  dsimp only at h
  obtain ⟨⟨stop, acc₁⟩, hemit, h⟩ := bind_eq_ok.mp h
  set acc : Acc := ⟨[], start, rule.bound.clip windowEnd, months, rule.bound.limit, cap⟩
  have hout : acc.out = [] := rfl
  obtain ⟨hsame, hstop, hgoesOn⟩ := emit_start hout rule.bound.limit_pos hemit
  obtain ⟨acc₂, hrun, h⟩ : ∃ acc₂, (if stop then .ok acc₁ else generate rule acc₁) = .ok acc₂ ∧
      firstDates rule.bound.limit acc₂.out = dates := by
    cases stop with
    | true => exact ⟨acc₁, rfl, Except.ok.inj h⟩
    | false =>
      obtain ⟨acc₂, hgen, h⟩ := bind_eq_ok.mp h
      exact ⟨acc₂, hgen, Except.ok.inj h⟩
  have hfirst : FirstOf rule.bound.limit (Due (Candidate rule months start) acc) acc₂.out := by
    cases stop with
    | true =>
      obtain rfl := Except.ok.inj hrun
      exact hstop rfl
    | false => exact generate_spec hsame rfl hsupported hmonths rfl (hgoesOn rfl) hrun
  have hsorted : acc₂.out.insertionSort (· ≤ ·) = acc₂.out := (hfirst.sorted.imp fun hlt => le_of_lt hlt).insertionSort_eq
  have hdates : dates = acc₂.out := by
    rw [← h]
    unfold firstDates
    rw [hsorted]
    cases hlimit : rule.bound.limit with
    | none => rfl
    | some limit => exact List.take_of_length_le (hfirst.most limit hlimit)
  rw [hdates]
  refine hfirst.congr ?_
  intro d
  unfold Due
  rw [Acc.admits_iff, inMonths_iff hmonths]

/-! ## The series of a rule -/

def periodIndex (rule : RecurrenceRule) (d : Date) : Int :=
  match rule.frequency with
  | .weekly => weekIndex rule.firstDayOfWeek d
  | .monthly => d.monthIndex
  | .yearly => d.year
  | _ => d.number

def InPeriod (rule : RecurrenceRule) (start d : Date) : Prop :=
  (periodIndex rule d - periodIndex rule start) % rule.interval = 0

/-- The days of a week: those `BYDAY` names or, without it, the start's. -/
def WeekSelected (rule : RecurrenceRule) (start d : Date) : Prop :=
  (rule.byDay ≠ [] → ByDay rule d) ∧ (rule.byDay = [] → d.weekday = start.weekday)

def Selected (rule : RecurrenceRule) (start d : Date) : Prop :=
  match rule.frequency with
  | .weekly => WeekSelected rule start d
  | .monthly => MonthSelected rule start d
  | _ => ByParts rule d

/-- The start and the dates selected in the periods the interval comes to, in the months `BYMONTH` names. -/
def InSeries (rule : RecurrenceRule) (start d : Date) : Prop :=
  (d = start ∨ InPeriod rule start d ∧ Selected rule start d) ∧ InMonths rule d

/-- From the start to the end of the window, or to the day of `UNTIL`. -/
def InRange (rule : RecurrenceRule) (start windowEnd d : Date) : Prop :=
  start ≤ d ∧ d ≤ rule.bound.clip windowEnd

theorem mem_weeklyTargets_iff (hplain : ∀ nd ∈ rule.byDay, nd.nthOfPeriod = none) :
    d.weekday ∈ weeklyTargets rule start ↔ WeekSelected rule start d := by
  unfold weeklyTargets WeekSelected
  by_cases hnil : rule.byDay = []
  · simp [hnil]
  · rw [if_neg (by rwa [List.isEmpty_iff]), List.mem_map]
    constructor
    · rintro ⟨nd, hnd, hday⟩
      refine ⟨fun _ => ⟨nd, hnd, hday.symm, ?_⟩, fun h => absurd h hnil⟩
      intro nth hnth
      rw [hplain nd hnd] at hnth
      exact nomatch hnth
    · rintro ⟨hby, -⟩
      obtain ⟨nd, hnd, hnames⟩ := hby hnil
      exact ⟨nd, hnd, hnames.1.symm⟩

theorem candidate_iff (hsupported : Supported rule)
    (hfreq : rule.frequency = .daily ∨ rule.frequency = .weekly ∨ rule.frequency = .monthly) :
    Candidate rule months start d ↔ InPeriod rule start d ∧ Selected rule start d := by
  have hplain := hsupported.plain
  unfold Candidate InPeriod periodIndex Selected
  rcases hfreq with hf | hf | hf
  · rw [hf]
    exact Iff.rfl
  · rw [hf]
    exact and_congr_right fun _ => mem_weeklyTargets_iff (hplain (.inr hf))
  · rw [hf]
    exact Iff.rfl

theorem occurrenceDates_eq_series (h : occurrenceDates start rule windowEnd cap = .ok dates)
    (hfreq : rule.frequency = .daily ∨ rule.frequency = .weekly ∨ rule.frequency = .monthly) :
    FirstOf rule.bound.limit (fun d => InSeries rule start d ∧ InRange rule start windowEnd d) dates := by
  obtain ⟨hsupported, months, -, hfirst⟩ := occurrenceDates_first h
  refine hfirst.congr ?_
  intro d
  rw [candidate_iff hsupported hfreq]
  unfold InSeries InRange
  tauto

/-- The last Fridays of the months from January 2024 on, two months apart, three of them. -/
def Sample.fridays : RecurrenceRule :=
  { RecurrenceRule.new .monthly with
    interval := 2, byDay := [⟨.fr, some (-1), by decide⟩], bound := .count 3 (by decide), intervalPos := by decide }

theorem Sample.year_inRange : -9999 ≤ (2024 : Int) ∧ (2024 : Int) ≤ 9999 := by decide

theorem Sample.three_pos : 0 < 3 := by decide

def Sample.newYear : Date := ⟨2024, 1, 1, year_inRange, by decide⟩

def Sample.yearEnd : Date := ⟨2024, 12, 31, by decide, by decide⟩

theorem occurrenceDates_eq_series_fridays : FirstOf (some 3) (fun d => InSeries Sample.fridays Sample.newYear d ∧
        InRange Sample.fridays Sample.newYear Sample.yearEnd d)
      [Sample.newYear, ⟨2024, 1, 26, by decide, by decide⟩, ⟨2024, 3, 29, by decide, by decide⟩] :=
  occurrenceDates_eq_series
    (by decide : occurrenceDates Sample.newYear Sample.fridays Sample.yearEnd 100 = _) (.inr (.inr rfl))

/-- A bound only cuts a series short: `COUNT` to its first dates, and `UNTIL` to those no later than its day. -/
theorem bounded_dates {cap' : Nat} {whole : List Date}
    (hwhole : occurrenceDates start { rule with bound := .unbounded } windowEnd cap = .ok whole)
    (h : occurrenceDates start rule windowEnd cap' = .ok dates) :
    dates = match rule.bound with
      | .unbounded => whole
      | .count n _ => whole.take n
      | .untilTime t => whole.filter (· ≤ t.date) := by
  obtain ⟨-, months, hmonths, hdates⟩ := occurrenceDates_first h
  obtain ⟨-, months', hmonths', hall⟩ := occurrenceDates_first hwhole
  obtain rfl : months' = months := Except.ok.inj (hmonths'.symm.trans hmonths)
  cases hbound : rule.bound with
  | unbounded =>
    rw [hbound] at hdates
    exact hdates.unique hall
  | count n pos =>
    rw [hbound] at hdates
    exact hdates.unique (hall.take n)
  | untilTime t =>
    rw [hbound] at hdates
    refine hdates.unique ((hall.filter (· ≤ t.date)).congr fun d => ?_)
    have hclip : d ≤ (RecurrenceBound.untilTime t).clip windowEnd ↔ d ≤ t.date ∧ d ≤ windowEnd := le_min_iff
    rw [hclip, decide_eq_true_iff]
    exact ⟨fun ⟨⟨hd, hstart, hend, hmonth⟩, hle⟩ => ⟨hd, hstart, ⟨hle, hend⟩, hmonth⟩,
      fun ⟨hd, hstart, ⟨hle, hend⟩, hmonth⟩ => ⟨⟨hd, hstart, hend, hmonth⟩, hle⟩⟩

def Sample.spring : Date := ⟨2024, 5, 31, by decide, by decide⟩

def Sample.january26 : Date := ⟨2024, 1, 26, by decide, by decide⟩

def Sample.march29 : Date := ⟨2024, 3, 29, by decide, by decide⟩

def Sample.march : LocalDateTime := ⟨⟨2024, 3, 1, by decide, by decide⟩, ⟨9, 0, 0, 0, by decide⟩⟩

def Sample.fridaysUntil : RecurrenceRule := { fridays with bound := .untilTime march }

open Sample in
theorem bounded_dates_fridays : [newYear, january26, march29] = List.take 3 [newYear, january26, march29, spring] ∧
      [newYear, january26] = List.filter (· ≤ march.date) [newYear, january26, march29, spring] := by
  have hwhole : occurrenceDates newYear { fridays with bound := .unbounded } spring 100 =
      .ok [newYear, january26, march29, spring] := by decide
  exact ⟨bounded_dates hwhole (by decide : occurrenceDates newYear fridays spring 100 = _),
    @bounded_dates fridaysUntil _ _ _ _ _ _ hwhole (by decide : occurrenceDates newYear fridaysUntil spring 100 = _)⟩

end Recurrence

namespace Recurrence

/-!
## Yearly rules

A yearly rule without `BYMONTH` is expanded in the start's month alone, also where `BYMONTHDAY` or `BYDAY`
apply to the whole year, and a start outside the months of `BYMONTH` is left out.  Elsewhere the dates are
those of RFC 5545.
-/

open Civil

variable {rule : RecurrenceRule} {start windowEnd : Date} {cap : Nat} {dates : List Date}

/-- The dates of a year as RFC 5545 expands the parts.  The month is limited by `BYMONTH` alone; only without
any part are month and day the start's. -/
def YearSelected (rule : RecurrenceRule) (start d : Date) : Prop :=
  InMonths rule d ∧ MonthSelected rule start d ∧
    (rule.byMonth = [] → rule.byMonthDay = [] → rule.byDay = [] → d.month = start.month)

def InYearly (rule : RecurrenceRule) (start d : Date) : Prop :=
  d = start ∨ (d.year - start.year) % rule.interval = 0 ∧ YearSelected rule start d

/-- The dates a yearly rule is expanded to: those in the months gone through, and the start if its month is
one of them. -/
theorem yearlyCandidate_iff {months : Option (List Nat)} (hmonths : parseByMonth rule.byMonth = .ok months) {d : Date} :
    (d = start ∨ YearlyCandidate rule (months.getD [start.month]) start d) ∧ InMonths rule d ↔
      InYearly rule start d ∧ InMonths rule d ∧
        (rule.byMonth = [] → rule.byDay ≠ [] ∨ rule.byMonthDay ≠ [] → d.month = start.month) := by
  unfold YearlyCandidate InYearly YearSelected
  constructor
  · rintro ⟨rfl | ⟨hyear, hmem, hselected⟩, hin⟩
    · exact ⟨.inl rfl, hin, fun _ _ => rfl⟩
    · have hsame := (mem_months_iff hmonths hin).mp hmem
      exact ⟨.inr ⟨hyear, hin, hselected, fun hnil _ _ => hsame hnil⟩, hin, fun hnil _ => hsame hnil⟩
  · rintro ⟨rfl | ⟨hyear, -, hselected, hdefault⟩, hin, hsame⟩
    · exact ⟨.inl rfl, hin⟩
    · refine ⟨.inr ⟨hyear, (mem_months_iff hmonths hin).mpr ?_, hselected⟩, hin⟩
      intro hnil
      by_cases hparts : rule.byDay ≠ [] ∨ rule.byMonthDay ≠ []
      · exact hsame hnil hparts
      · simp only [not_or, not_not] at hparts
        exact hdefault hnil hparts.2 hparts.1

theorem inRange_finite (P : Date → Prop) : {d | P d ∧ InRange rule start windowEnd d}.Finite := by
  have hnumbers : (Set.preimage Date.number (Set.Icc start.number (rule.bound.clip windowEnd).number)).Finite :=
    (Set.finite_Icc _ _).preimage Date.number_injective.injOn
  refine hnumbers.subset ?_
  rintro d ⟨-, hge, hle⟩
  exact ⟨hge, hle⟩

theorem start_amongFirst {limit : Option Nat} {T : Date → Prop} (hpos : ∀ c, limit = some c → 0 < c)
    (hT : T start) (hlate : ∀ d, T d → start ≤ d) : AmongFirst limit T start := by
  refine ⟨hT, ?_⟩
  intro c hc
  have hempty : {d | T d ∧ d < start} = ∅ := by
    rw [Set.eq_empty_iff_forall_notMem]
    rintro d ⟨hd, hlt⟩
    exact absurd hlt (not_lt_of_ge (hlate d hd))
  rw [hempty, Set.encard_empty]
  exact_mod_cast hpos c hc

/-- A yearly rule is expanded as RFC 5545 has it just when `BYMONTH` names the start's month, if the start is
in range at all, and no date outside the start's month is due where `BYMONTHDAY` or `BYDAY` stand without
`BYMONTH`. -/
theorem occurrenceDates_yearly_iff (h : occurrenceDates start rule windowEnd cap = .ok dates)
    (hfreq : rule.frequency = .yearly) :
    FirstOf rule.bound.limit (fun d => InYearly rule start d ∧ InRange rule start windowEnd d) dates ↔
      (rule.byMonth ≠ [] → start ≤ rule.bound.clip windowEnd → InMonths rule start) ∧
      (rule.byMonth = [] → rule.byDay ≠ [] ∨ rule.byMonthDay ≠ [] → ∀ d,
        AmongFirst rule.bound.limit (fun d => InYearly rule start d ∧ InRange rule start windowEnd d) d →
          d.month = start.month) := by
  obtain ⟨-, months, hmonths, hfirst⟩ := occurrenceDates_first h
  have hcode := hfirst.congr (B := fun d => (InYearly rule start d ∧ InMonths rule d ∧
      (rule.byMonth = [] → rule.byDay ≠ [] ∨ rule.byMonthDay ≠ [] → d.month = start.month)) ∧
      InRange rule start windowEnd d) (by
    intro d
    rw [← yearlyCandidate_iff hmonths]
    unfold Candidate InRange
    rw [hfreq]
    tauto)
  rw [hcode.iff_of_subset (fun d hd => ⟨hd.1.1, hd.2⟩) (inRange_finite _)]
  constructor
  · intro hall
    refine ⟨?_, fun hnil hparts d hd => (hall d hd).1.2.2 hnil hparts⟩
    intro _ hrange
    refine (hall start ?_).1.2.1
    exact start_amongFirst rule.bound.limit_pos ⟨.inl rfl, le_refl _, hrange⟩ fun d hd => hd.2.1
  · rintro ⟨hstart, hother⟩ d hd
    obtain ⟨hyearly, hrange⟩ := hd.1
    refine ⟨⟨hyearly, ?_, fun hnil hparts => hother hnil hparts d hd⟩, hrange⟩
    rcases hyearly with rfl | ⟨-, hselected⟩
    · exact fun hne => hstart hne hrange.2 hne
    · exact hselected.1

def Sample.fifteenth : RecurrenceRule := { RecurrenceRule.new .yearly with byMonthDay := [15] }

def Sample.january : Date := ⟨2024, 1, 15, by decide, by decide⟩

def Sample.february : Date := ⟨2024, 2, 15, by decide, by decide⟩

theorem february_inYearly : InYearly Sample.fifteenth Sample.january Sample.february := by
  refine .inr ⟨by decide, fun h => absurd rfl h, ⟨⟨fun h => absurd rfl h, ?_⟩, ?_⟩, ?_⟩
  · exact fun _ => ⟨15, List.mem_singleton_self _, .inl (by decide)⟩
  · exact fun _ h => nomatch h
  · exact fun _ h => nomatch h

/-- From the fifteenth of January on, the other months' fifteenths are not given. -/
theorem occurrenceDates_yearly_misses_february :
    ¬∀ (rule : RecurrenceRule) (start windowEnd : Date) (cap : Nat) (dates : List Date),
      rule.frequency = .yearly → occurrenceDates start rule windowEnd cap = .ok dates →
        FirstOf rule.bound.limit (fun d => InYearly rule start d ∧ InRange rule start windowEnd d) dates := by
  intro h
  have hdates : occurrenceDates Sample.january Sample.fifteenth Sample.yearEnd 100 = .ok [Sample.january] := by decide
  have hfirst := h _ _ _ _ _ rfl hdates
  have hrest := hfirst.rest Sample.february ⟨february_inYearly, by decide, by decide⟩ (by decide)
  exact nomatch hrest.1

/-- The fifteenths of January and March, every other year. -/
def Sample.otherYears : RecurrenceRule :=
  { Sample.fifteenth with interval := 2, byMonth := ["1", "3"], intervalPos := by decide }

/-- With the months named, nothing is missed. -/
theorem occurrenceDates_yearly_iff_otherYears : FirstOf none (fun d => InYearly Sample.otherYears Sample.january d ∧
        InRange Sample.otherYears Sample.january ⟨2026, 12, 31, by decide, by decide⟩ d)
      [Sample.january, ⟨2024, 3, 15, by decide, by decide⟩, ⟨2026, 1, 15, by decide, by decide⟩,
        ⟨2026, 3, 15, by decide, by decide⟩] := by
  have hdates : occurrenceDates Sample.january Sample.otherYears ⟨2026, 12, 31, by decide, by decide⟩ 100 = .ok
      [Sample.january, ⟨2024, 3, 15, by decide, by decide⟩, ⟨2026, 1, 15, by decide, by decide⟩,
        ⟨2026, 3, 15, by decide, by decide⟩] := by decide
  exact (occurrenceDates_yearly_iff hdates rfl).mpr ⟨fun _ _ _ => by decide, fun hnil => nomatch hnil⟩

end Recurrence
end SyncEngine
