import SyncEngine.Graph.Reread

/-!
# The series Graph keeps

Graph's patterns leave out `BYMONTH` but for yearly rules, and `BYMONTHDAY` where weekdays are named or every
day is; its range leaves out the time of day of `UNTIL`.  A rule is kept as it is where what is left out makes
no difference.
-/

namespace SyncEngine
namespace Graph

open Recurrence Fallible Civil

variable {rule : RecurrenceRule} {start d : Date} {months : Option (List Nat)}

/-! ## The start's weekday -/

theorem ofZeller_offset {index : Int} (h₀ : 0 ≤ index) (h₇ : index < 7) :
    ((ofZeller index).offset : Int) = (index + 5) % 7 := by
  interval_cases index <;> decide

variable (y : Int)

theorem quarters : y / 4 = 25 * (y / 100) + (y % 100) / 4 ∧ y / 400 = y / 100 / 4 := by
  constructor
  · omega
  · omega

theorem zeller_early (m d : Nat) (hm : 1 ≤ m ∧ m ≤ 2) :
    (d + (13 * ((m : Int) + 12 + 1)) / 5 + (y - 1) % 100 + ((y - 1) % 100) / 4 + ((y - 1) / 100) / 4 +
      5 * ((y - 1) / 100)) % 7 = dayNumber y m d % 7 := by
  obtain ⟨h₁, h₂⟩ := hm
  obtain ⟨h4, h400⟩ := quarters (y - 1)
  have hyear : beforeYear y = 365 * y + (y - 1) / 4 - (y - 1) / 100 + (y - 1) / 400 + 1 := by
    unfold beforeYear
    omega
  have hparts := Int.emod_add_mul_ediv (y - 1) 100
  unfold dayNumber
  rw [hyear, h4, h400]
  interval_cases m
  · simp only [beforeMonth]
    omega
  · simp only [beforeMonth]
    omega

theorem zeller_late (m d : Nat) (hm : 3 ≤ m ∧ m ≤ 12) :
    (d + (13 * ((m : Int) + 1)) / 5 + y % 100 + (y % 100) / 4 + (y / 100) / 4 + 5 * (y / 100)) % 7 =
      dayNumber y m d % 7 := by
  obtain ⟨h₁, h₂⟩ := hm
  obtain ⟨h4, h400⟩ := quarters y
  have hyear : beforeYear y + (if isLeap y = true then 1 else 0) =
      365 * y + y / 4 - y / 100 + y / 400 + 1 := by
    unfold beforeYear
    by_cases hleap : isLeap y = true
    · rw [if_pos hleap]
      rw [isLeap_iff] at hleap
      omega
    · rw [if_neg hleap]
      rw [isLeap_iff] at hleap
      omega
  have hparts := Int.emod_add_mul_ediv y 100
  rw [h4, h400] at hyear
  unfold dayNumber
  generalize beforeYear y = before at hyear
  by_cases hleap : isLeap y = true
  · rw [if_pos hleap] at hyear
    interval_cases m <;> (simp only [beforeMonth, if_pos hleap]; omega)
  · rw [if_neg hleap] at hyear
    interval_cases m <;> (simp only [beforeMonth, if_neg hleap]; omega)

theorem zeller_truncated {y m : Int} (hy : 0 ≤ y) (hm : 0 ≤ m) (d : Nat) :
    (d + (13 * (m + 1)).tdiv 5 + y.tmod 100 + (y.tmod 100).tdiv 4 + (y.tdiv 100).tdiv 4 + 5 * y.tdiv 100).tmod 7 =
      (d + (13 * (m + 1)) / 5 + y % 100 + y % 100 / 4 + y / 100 / 4 + 5 * (y / 100)) % 7 := by
  have hmod : y.tmod 100 = y % 100 := Int.tmod_eq_emod_of_nonneg hy
  have hdiv : y.tdiv 100 = y / 100 := Int.tdiv_eq_ediv_of_nonneg hy
  have hfive : (13 * (m + 1)).tdiv 5 = 13 * (m + 1) / 5 := Int.tdiv_eq_ediv_of_nonneg (by omega)
  have hfour : (y % 100).tdiv 4 = y % 100 / 4 := Int.tdiv_eq_ediv_of_nonneg (by omega)
  have hcentury : (y / 100).tdiv 4 = y / 100 / 4 := Int.tdiv_eq_ediv_of_nonneg (by omega)
  rw [hmod, hdiv, hfive, hfour, hcentury]
  exact Int.tmod_eq_emod_of_nonneg (by omega)

theorem weekdayOf_eq (h : 0 < start.year ∨ start.year = 0 ∧ 3 ≤ start.month) : weekdayOf start = start.weekday := by
  have hm₁ := start.isDate.1
  have hm₂ := start.isDate.2.1
  symm
  rw [Date.weekday_eq_iff]
  unfold weekdayOf Date.number
  dsimp only
  by_cases hearly : start.month < 3
  · rw [if_pos hearly, if_pos hearly, zeller_truncated (by omega) (by omega),
      zeller_early start.year start.month start.day ⟨hm₁, by omega⟩, ofZeller_offset (by omega) (by omega)]
    omega
  · rw [if_neg hearly, if_neg hearly, zeller_truncated (by omega) (by omega),
      zeller_late start.year start.month start.day ⟨by omega, hm₂⟩, ofZeller_offset (by omega) (by omega)]
    omega

/-! ## What is left out -/

/-- Whether the pattern has no place for `BYMONTHDAY`. -/
def MonthDaysLeftOut (rule : RecurrenceRule) : Prop :=
  rule.frequency = .daily ∨ rule.frequency ≠ .weekly ∧ rule.byDay ≠ []

instance : DecidablePred MonthDaysLeftOut := fun rule => by
  unfold MonthDaysLeftOut
  exact inferInstance

/-- The rule without what is left out, with the weekday a weekly rule's pattern names. -/
def named (rule : RecurrenceRule) (start : Date) : RecurrenceRule :=
  { rule with
    byDay := if rule.frequency = .weekly ∧ rule.byDay = [] then [⟨weekdayOf start, none, NDay.every_nonzero⟩] else rule.byDay
    byMonth := if rule.frequency = .yearly then rule.byMonth else []
    byMonthDay := if MonthDaysLeftOut rule then [] else rule.byMonthDay }

def Rest (rule : RecurrenceRule) (start d : Date) : Prop :=
  (rule.frequency ≠ .yearly → InMonths rule d) ∧
    (d ≠ start → MonthDaysLeftOut rule → rule.byMonthDay ≠ [] → ByMonthDay rule d)

/-! ## The rule Graph keeps draws the dates that are named -/

variable {rule' : RecurrenceRule}

theorem byDay_congr (h : rule'.byDay = rule.byDay) : ByDay rule' d ↔ ByDay rule d := by
  unfold ByDay
  rw [h]

theorem byMonthDay_congr (h : rule'.byMonthDay = rule.byMonthDay) : ByMonthDay rule' d ↔ ByMonthDay rule d := by
  unfold ByMonthDay
  rw [h]

theorem byMonthDay_start (h : rule.byMonthDay = [(start.day : Int)]) : ByMonthDay rule d ↔ d.day = start.day := by
  have hpos := (date_bounds start).2.2.1
  unfold ByMonthDay
  rw [h]
  simp only [List.mem_singleton, exists_eq_left]
  omega

theorem weekSelected_congr (h : rule'.byDay = rule.byDay) : WeekSelected rule' start d ↔ WeekSelected rule start d := by
  unfold WeekSelected
  rw [h, byDay_congr h]

theorem keptDays_weekly (hfreq : rule.frequency = .weekly) (hplain : ∀ nd ∈ rule.byDay, nd.nthOfPeriod = none) :
    keptDays rule start = (named rule start).byDay := by
  unfold keptDays named weeklyDays
  rw [hfreq]
  dsimp only
  by_cases hnil : rule.byDay = []
  · simp [hnil]
  · rw [if_neg (by rwa [List.isEmpty_iff]), if_neg (fun h => hnil h.2), List.map_map]
    refine (List.map_congr_left ?_).trans (List.map_id _)
    intro nd hnd
    obtain ⟨day, ordinal, nonzero⟩ := nd
    have hnone := hplain _ hnd
    simp only at hnone
    simp only [Function.comp, hnone, id]

theorem monthSelected_kept (hfreq : rule.frequency = .monthly ∨ rule.frequency = .yearly) :
    MonthSelected (kept rule start months) start d ↔ MonthSelected (named rule start) start d := by
  have hday : (kept rule start months).byDay = rule.byDay := by
    unfold kept keptDays
    rcases hfreq with hf | hf
    · rw [hf]
    · rw [hf]
  have hday' : (named rule start).byDay = rule.byDay := by
    unfold named
    rcases hfreq with hf | hf
    · simp [hf]
    · simp [hf]
  have hmd : (kept rule start months).byMonthDay =
      if rule.byDay = [] then if rule.byMonthDay = [] then [(start.day : Int)] else rule.byMonthDay else [] := by
    unfold kept keptMonthDay
    rcases hfreq with hf | hf
    · simp [hf]
    · simp [hf]
  have hmd' : (named rule start).byMonthDay = if rule.byDay = [] then rule.byMonthDay else [] := by
    unfold named MonthDaysLeftOut
    rcases hfreq with hf | hf
    · by_cases hnil : rule.byDay = []
      · simp [hf, hnil]
      · simp [hf, hnil]
    · by_cases hnil : rule.byDay = []
      · simp [hf, hnil]
      · simp [hf, hnil]
  unfold MonthSelected ByParts
  rw [byDay_congr (hday.trans hday'.symm), hday, hday']
  by_cases hnil : rule.byDay = []
  · rw [if_pos hnil] at hmd hmd'
    by_cases hmnil : rule.byMonthDay = []
    · rw [if_pos hmnil] at hmd
      rw [byMonthDay_start hmd, hmd, hmd', hmnil]
      simp [hnil]
    · rw [if_neg hmnil] at hmd
      rw [byMonthDay_congr (hmd.trans hmd'.symm), hmd, hmd']
  · rw [if_neg hnil] at hmd hmd'
    rw [hmd, hmd']
    simp [hnil]

theorem chosen_kept (hsupported : Supported rule) (hyearly : rule.frequency ≠ .yearly) :
    Chosen (kept rule start months) start d ↔ Chosen (named rule start) start d := by
  have hfreq : (kept rule start months).frequency = rule.frequency := rfl
  have hfreq' : (named rule start).frequency = rule.frequency := rfl
  unfold Chosen Selected
  rw [hfreq, hfreq']
  rcases hsupported.frequency with hf | hf | hf | hf
  · rw [hf]
    have hday : (kept rule start months).byDay = (named rule start).byDay := by simp [kept, keptDays, named, hf]
    have hmd : (kept rule start months).byMonthDay = (named rule start).byMonthDay := by
      simp [kept, keptMonthDay, named, MonthDaysLeftOut, hf]
    show ByParts _ d ↔ ByParts _ d
    unfold ByParts
    rw [byDay_congr hday, byMonthDay_congr hmd, hday, hmd]
  · rw [hf]
    exact weekSelected_congr (keptDays_weekly hf (hsupported.plain (.inr hf)))
  · rw [hf]
    exact monthSelected_kept (.inl hf)
  · exact absurd hf hyearly

theorem inPeriod_kept (rule : RecurrenceRule) (start d : Date) (months : Option (List Nat)) :
    InPeriod (kept rule start months) start d ↔ InPeriod (named rule start) start d := by
  have hindex : ∀ e, periodIndex (kept rule start months) e = periodIndex (named rule start) e := by
    intro e
    have hfirst : rule.frequency = .weekly → (kept rule start months).firstDayOfWeek = rule.firstDayOfWeek :=
      fun hf => if_pos hf
    have hfreq : (kept rule start months).frequency = rule.frequency := rfl
    have hfreq' : (named rule start).frequency = rule.frequency := rfl
    unfold periodIndex
    rw [hfreq, hfreq']
    cases hf : rule.frequency with
    | weekly =>
      rw [hfirst hf]
      rfl
    | _ => rfl
  unfold InPeriod
  rw [hindex, hindex]
  exact Iff.rfl

variable {m : Nat}

theorem parseMonth_toString (h : 1 ≤ m ∧ m ≤ 12) : parseMonth (toString m) = .ok m := by
  obtain ⟨h₁, h₂⟩ := h
  interval_cases m <;> decide

theorem inMonths_singleton (hm : 1 ≤ m ∧ m ≤ 12) (h : rule.byMonth = [toString m]) : InMonths rule d ↔ d.month = m := by
  unfold InMonths
  rw [h]
  simp only [List.mem_singleton, exists_eq_left, parseMonth_toString hm, ne_eq, List.cons_ne_nil, not_false_eq_true,
    forall_const, Except.ok.injEq]
  exact eq_comm

variable {json : Json}

theorem yearly_month (hfreq : rule.frequency = .yearly)
    (hmonths : parseByMonth rule.byMonth = .ok months) (h : renderRecurrence rule start = .ok json) :
    ∃ month, months.getD [start.month] = [month] ∧ 1 ≤ month ∧ month ≤ 12 := by
  obtain ⟨rendered, hrendered, -⟩ := bind_eq_ok.mp h
  obtain ⟨pattern, hpattern, -, -⟩ := renderPattern_spec hrendered
  unfold patternOf at hpattern
  rw [hfreq] at hpattern
  obtain ⟨month, hmonth, -⟩ := bind_eq_ok.mp hpattern
  exact ⟨month, monthOf_spec hmonths hmonth⟩

theorem drawn_kept (hsupported : Supported rule) (hmonths : parseByMonth rule.byMonth = .ok months)
    (h : renderRecurrence rule start = .ok json) :
    Drawn (kept rule start months) start d ↔ Drawn (named rule start) start d := by
  unfold Drawn
  rw [inPeriod_kept]
  by_cases hyearly : rule.frequency = .yearly
  · obtain ⟨month, hone, hrange⟩ := yearly_month hyearly hmonths h
    have hbyMonth : (kept rule start months).byMonth = [toString month] := by simp [kept, keptMonth, hyearly, hone]
    have hbyMonth' : (named rule start).byMonth = rule.byMonth := if_pos hyearly
    have hfreq : (kept rule start months).frequency = .yearly := hyearly
    have hfreq' : (named rule start).frequency = .yearly := hyearly
    have hin' : InMonths (named rule start) d ↔ InMonths rule d := by
      unfold InMonths
      rw [hbyMonth']
    unfold Chosen
    rw [hfreq, hfreq']
    dsimp only
    rw [monthSelected_kept (.inr hyearly), inMonths_singleton hrange hbyMonth, hin', hbyMonth']
    have hmem : InMonths rule d → (d.month = month ↔ (rule.byMonth = [] → d.month = start.month)) := by
      intro hin
      rw [← mem_months_iff hmonths hin, hone, List.mem_singleton]
    have hin : d.month = month → InMonths rule d := by
      intro hd
      obtain ⟨hnone, hsome⟩ := parseByMonth_spec hmonths
      cases hm : months with
      | none =>
        intro hne
        exact absurd (hnone.mp hm) hne
      | some ms =>
        intro _
        rw [hm, Option.getD_some] at hone
        refine ((hsome ms hm).2 d.month).mp ?_
        rw [hone, hd]
        exact List.mem_singleton_self _
    simp only [hbyMonth, List.cons_ne_nil, false_implies, and_true]
    constructor
    · rintro ⟨hor, hd⟩
      have hmonth := (hmem (hin hd)).mp hd
      exact ⟨hor.imp_right fun hsel => ⟨hsel.1, hsel.2, hmonth⟩, hin hd⟩
    · rintro ⟨rfl | ⟨hperiod, hsel, hmonth⟩, hinRule⟩
      · exact ⟨.inl rfl, (hmem hinRule).mpr fun _ => rfl⟩
      · exact ⟨.inr ⟨hperiod, hsel⟩, (hmem hinRule).mpr hmonth⟩
  · have hall : InMonths (kept rule start months) d ↔ InMonths (named rule start) d := by
      have hbyMonth : (kept rule start months).byMonth = [] := by
        unfold kept keptMonth
        cases hf : rule.frequency <;> simp_all
      have hbyMonth' : (named rule start).byMonth = [] := if_neg hyearly
      unfold InMonths
      rw [hbyMonth, hbyMonth']
    rw [chosen_kept hsupported hyearly, hall]

theorem untilDay_kept : UntilDay (kept rule start months) d ↔ UntilDay (named rule start) d := by
  have hbound : (kept rule start months).bound = keptBound rule.bound := rfl
  have hbound' : (named rule start).bound = rule.bound := rfl
  unfold UntilDay
  rw [hbound, hbound']
  cases rule.bound with
  | unbounded => exact Iff.rfl
  | count n pos => exact Iff.rfl
  | untilTime t => simp [keptBound]

theorem instance_kept (hsupported : Supported rule) (hmonths : parseByMonth rule.byMonth = .ok months)
    (h : renderRecurrence rule start = .ok json) :
    Instance (kept rule start months) start d ↔ Instance (named rule start) start d := by
  have hlimit : (kept rule start months).bound.limit = (named rule start).bound.limit := by
    show (keptBound rule.bound).limit = rule.bound.limit
    cases rule.bound <;> rfl
  unfold Instance
  rw [hlimit]
  refine AmongFirst.congr_iff fun e => ?_
  rw [drawn_kept hsupported hmonths h, untilDay_kept]

end Graph
end SyncEngine
