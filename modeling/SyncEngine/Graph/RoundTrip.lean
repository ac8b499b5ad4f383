import Mathlib
import SyncEngine.Graph.Series

/-!
# Writing a rule and reading it back

Where nothing that is left out tells apart the dates the rule names, a rule that is written and read back has the
same instances, and else it has not.
-/

namespace SyncEngine
namespace Graph

open Recurrence Fallible

variable {rule : RecurrenceRule} {start d : Date} {months : Option (List Nat)} {json : Json}

/-- A weekly rule without `BYDAY` is given the start's own weekday. -/
def WeekdayNamed (rule : RecurrenceRule) (start : Date) : Prop :=
  rule.frequency = .weekly → rule.byDay = [] → weekdayOf start = start.weekday

theorem byParts_leftOut (start : Date) (h : MonthDaysLeftOut rule) (hweekly : rule.frequency ≠ .weekly) :
    ByParts rule d ↔ ByParts (named rule start) d ∧ (rule.byMonthDay ≠ [] → ByMonthDay rule d) := by
  have hday : (named rule start).byDay = rule.byDay := if_neg fun hw => hweekly hw.1
  have hmd : (named rule start).byMonthDay = [] := if_pos h
  unfold ByParts
  rw [byDay_congr hday, hday, hmd]
  tauto

theorem byParts_kept (start : Date) (h : ¬MonthDaysLeftOut rule) (hweekly : rule.frequency ≠ .weekly) :
    ByParts rule d ↔ ByParts (named rule start) d := by
  have hday : (named rule start).byDay = rule.byDay := if_neg fun hw => hweekly hw.1
  have hmd : (named rule start).byMonthDay = rule.byMonthDay := if_neg h
  unfold ByParts
  rw [byDay_congr hday, byMonthDay_congr hmd, hday, hmd]

theorem monthSelected_iff (hweekly : rule.frequency ≠ .weekly) (hdaily : rule.frequency ≠ .daily) :
    MonthSelected rule start d ↔ MonthSelected (named rule start) start d ∧
      (MonthDaysLeftOut rule → rule.byMonthDay ≠ [] → ByMonthDay rule d) := by
  have hday : (named rule start).byDay = rule.byDay := if_neg fun hw => hweekly hw.1
  unfold MonthSelected
  by_cases hout : MonthDaysLeftOut rule
  · have hne : rule.byDay ≠ [] := by
      rcases hout with hd | ⟨-, hne⟩
      · exact absurd hd hdaily
      · exact hne
    rw [byParts_leftOut start hout hweekly, hday]
    tauto
  · have hmd : (named rule start).byMonthDay = rule.byMonthDay := if_neg hout
    rw [byParts_kept start hout hweekly, hday, hmd]
    tauto

theorem weekSelected_named (hnamed : WeekdayNamed rule start) (hfreq : rule.frequency = .weekly) :
    WeekSelected rule start d ↔ WeekSelected (named rule start) start d := by
  by_cases hnil : rule.byDay = []
  · have hday : (named rule start).byDay = [⟨weekdayOf start, none, by decide⟩] := if_pos ⟨hfreq, hnil⟩
    unfold WeekSelected ByDay NDay.Names
    rw [hday, hnil]
    simp [hnamed hfreq hnil]
  · have hday : (named rule start).byDay = rule.byDay := if_neg fun hw => hnil hw.2
    exact (weekSelected_congr hday).symm

theorem chosen_iff (hsupported : Supported rule) (hnamed : WeekdayNamed rule start) :
    Chosen rule start d ↔ Chosen (named rule start) start d ∧
      (MonthDaysLeftOut rule → rule.byMonthDay ≠ [] → ByMonthDay rule d) := by
  have hfreq' : (named rule start).frequency = rule.frequency := rfl
  unfold Chosen Selected
  rw [hfreq']
  rcases hsupported.frequency with hf | hf | hf | hf
  · have hout : MonthDaysLeftOut rule := .inl hf
    rw [hf]
    show ByParts rule d ↔ ByParts _ d ∧ _
    rw [byParts_leftOut start hout (by rw [hf]; decide)]
    tauto
  · have hin : ¬MonthDaysLeftOut rule := by
      unfold MonthDaysLeftOut
      simp [hf]
    rw [hf]
    show WeekSelected rule start d ↔ WeekSelected _ start d ∧ _
    rw [weekSelected_named hnamed hf]
    tauto
  · rw [hf]
    exact monthSelected_iff (by rw [hf]; decide) (by rw [hf]; decide)
  · have hbyMonth : (named rule start).byMonth = rule.byMonth := if_pos hf
    rw [hf]
    dsimp only
    rw [hbyMonth, monthSelected_iff (by rw [hf]; decide) (by rw [hf]; decide)]
    tauto

theorem inPeriod_named : InPeriod (named rule start) start d ↔ InPeriod rule start d := Iff.rfl

theorem inMonths_named_iff : InMonths rule d ↔ InMonths (named rule start) d ∧
    (rule.frequency ≠ .yearly → InMonths rule d) := by
  by_cases hyearly : rule.frequency = .yearly
  · have hbyMonth : (named rule start).byMonth = rule.byMonth := if_pos hyearly
    unfold InMonths
    rw [hbyMonth]
    tauto
  · have hbyMonth : (named rule start).byMonth = [] := if_neg hyearly
    unfold InMonths
    rw [hbyMonth]
    tauto

theorem drawn_iff (hsupported : Supported rule) (hnamed : WeekdayNamed rule start) :
    Drawn rule start d ↔ Drawn (named rule start) start d ∧ Rest rule start d := by
  unfold Drawn Rest
  rw [inPeriod_named, chosen_iff hsupported hnamed]
  have hmonths := @inMonths_named_iff rule start d
  by_cases hstart : d = start
  · tauto
  · tauto

theorem dates_finite (P : Date → Prop) : {d | P d}.Finite := by
  have hnumbers : (Set.preimage Date.number (Set.Icc (Civil.beforeYear (-9999)) (Civil.beforeYear 10000))).Finite :=
    (Set.finite_Icc _ _).preimage Date.number_injective.injOn
  refine hnumbers.subset ?_
  intro d _
  have hin := inYear d
  have hrange := d.inRange
  exact ⟨le_trans (Civil.beforeYear_mono hrange.1) hin.1, le_trans (le_of_lt hin.2) (Civil.beforeYear_mono (by omega))⟩

/-! ## The same instances -/

/-- With the weekday named right, the dates are the same just when the parts left out admit all that are named. -/
theorem sameDates_iff (hsupported : Supported rule) (hnamed : WeekdayNamed rule start) :
    (∀ d, Instance rule start d ↔ Instance (named rule start) start d) ↔
      ∀ d, Instance (named rule start) start d → Rest rule start d := by
  have hsub : ∀ d, Drawn rule start d ∧ start ≤ d ∧ UntilDay rule d →
      Drawn (named rule start) start d ∧ start ≤ d ∧ UntilDay rule d :=
    fun d hd => ⟨((drawn_iff hsupported hnamed).mp hd.1).1, hd.2⟩
  have hfirst := @amongFirst_iff_of_subset _ _ rule.bound.limit _ _ hsub (dates_finite _)
  refine Iff.trans hfirst ?_
  refine forall_congr' fun d => imp_congr_right fun hd => ?_
  have hdrawn := hd.1
  rw [drawn_iff hsupported hnamed]
  constructor
  · exact fun h => h.1.2
  · exact fun h => ⟨⟨hdrawn.1, h⟩, hdrawn.2⟩

theorem instance_start_iff : Instance rule start start ↔ InMonths rule start ∧ UntilDay rule start := by
  constructor
  · exact fun h => ⟨h.1.1.2, h.1.2.2⟩
  · rintro ⟨hin, huntil⟩
    exact start_amongFirst rule.bound.limit_pos ⟨⟨.inl rfl, hin⟩, le_refl _, huntil⟩ fun d hd => hd.2.1

/-- Where the weekday is named wrong, only the start can be an instance of both. -/
theorem eq_start_of_not_named (hnot : ¬WeekdayNamed rule start) (h : Instance rule start d)
    (h' : Instance (named rule start) start d) : d = start := by
  unfold WeekdayNamed at hnot
  simp only [Classical.not_imp] at hnot
  obtain ⟨hweekly, hnil, hwrong⟩ := hnot
  have hfreq' : (named rule start).frequency = .weekly := hweekly
  have hday : (named rule start).byDay = [⟨weekdayOf start, none, by decide⟩] := if_pos ⟨hweekly, hnil⟩
  by_contra hne
  have hchosen := (h.1.1.1.resolve_left hne).2
  have hchosen' := (h'.1.1.1.resolve_left hne).2
  unfold Chosen Selected at hchosen hchosen'
  rw [hweekly] at hchosen
  rw [hfreq'] at hchosen'
  obtain ⟨nd, hnd, hnames⟩ := hchosen'.1 (by rw [hday]; exact List.cons_ne_nil _ _)
  rw [hday] at hnd
  rw [List.mem_singleton.mp hnd] at hnames
  exact hwrong (hnames.1.symm.trans (hchosen.2 hnil))

theorem rest_of_instance (hsupported : Supported rule) (h : Instance rule start d) : Rest rule start d := by
  by_cases hnamed : WeekdayNamed rule start
  · exact ((drawn_iff hsupported hnamed).mp h.1.1).2
  · unfold WeekdayNamed at hnamed
    simp only [Classical.not_imp] at hnamed
    refine ⟨fun _ => h.1.1.2, ?_⟩
    intro _ hout
    unfold MonthDaysLeftOut at hout
    rw [hnamed.1] at hout
    simp at hout

theorem untilAdmits_kept {time : Time} (h : UntilDay (kept rule start months) d) :
    untilAdmits (kept rule start months).bound time d = true := by
  have hbound : (kept rule start months).bound = keptBound rule.bound := rfl
  unfold UntilDay at h
  rw [hbound] at h ⊢
  unfold keptBound at h ⊢
  cases hb : rule.bound with
  | unbounded => rfl
  | count n pos => rfl
  | untilTime t =>
    rw [hb] at h
    have hle : d.number ≤ t.date.number := h ⟨t.date, lastSecond⟩ rfl
    have hproper := time.proper
    refine decide_eq_true ?_
    show (instanceRid time d).nanos ≤ (⟨t.date, lastSecond⟩ : LocalDateTime).nanos
    unfold LocalDateTime.nanos Time.nanos instanceRid lastSecond nanosPerDay
    dsimp only
    omega

theorem keptMonth_of_not_yearly (hyearly : rule.frequency ≠ .yearly) : (kept rule start months).byMonth = [] := by
  unfold kept keptMonth
  cases hf : rule.frequency with
  | yearly => exact absurd hf hyearly
  | _ => rfl

theorem supported_kept (hsupported : Supported rule) (hmonths : parseByMonth rule.byMonth = .ok months)
    (h : renderRecurrence rule start = .ok json) :
    Supported (kept rule start months) ∧ ∃ months', parseByMonth (kept rule start months).byMonth = .ok months' := by
  have hplain : rule.frequency = .daily ∨ rule.frequency = .weekly →
      ∀ nd ∈ keptDays rule start, nd.nthOfPeriod = none := by
    intro hfreq
    rcases hfreq with hf | hf
    · unfold keptDays
      rw [hf]
      exact hsupported.plain (.inl hf)
    · intro nd hnd
      unfold keptDays at hnd
      rw [hf] at hnd
      obtain ⟨day, -, rfl⟩ := List.mem_map.mp hnd
      rfl
  by_cases hyearly : rule.frequency = .yearly
  · obtain ⟨month, hone, hrange⟩ := yearly_month hyearly hmonths h
    have hbyMonth : (kept rule start months).byMonth = [toString month] := by simp [kept, keptMonth, hyearly, hone]
    refine ⟨⟨hsupported.frequency, rfl, rfl, rfl, rfl, ⟨rfl, rfl, rfl⟩, hplain, ?_⟩, some (monthSet [month]), ?_⟩
    · intro _ hnil
      rw [hbyMonth] at hnil
      cases hnil
    · rw [hbyMonth]
      unfold parseByMonth
      rw [List.mapM_cons, parseMonth_toString hrange]
      rfl
  · have hbyMonth : (kept rule start months).byMonth = [] := keptMonth_of_not_yearly hyearly
    refine ⟨⟨hsupported.frequency, rfl, rfl, rfl, rfl, ⟨rfl, rfl, rfl⟩, hplain, fun hf => absurd hf hyearly⟩, none, ?_⟩
    rw [hbyMonth]
    rfl

/-- The instances of two rules from a start, to the second of `UNTIL`. -/
def SameInstances (rule rule' : RecurrenceRule) (start : Date) (time : Time) : Prop :=
  ∀ d, InstanceAt rule (⟨(), start, time⟩ : Context Unit) d ↔ InstanceAt rule' (⟨(), start, time⟩ : Context Unit) d

/-- What is left out makes no difference: the parts admit every date that is named, `UNTIL` cuts none of these off
within its day, and the weekday is named right or the start is all there is. -/
structure NothingLost (rule : RecurrenceRule) (start : Date) (time : Time) : Prop where
  untilWritten : UntilWritten rule
  parts : ∀ d, Instance (named rule start) start d → Rest rule start d
  untilTime : ∀ t, rule.bound = .untilTime t → Instance (named rule start) start t.date → instanceRid time t.date ≤ t
  weekday : WeekdayNamed rule start ∨ ∀ d, InstanceAt rule (⟨(), start, time⟩ : Context Unit) d ∨
    Instance (named rule start) start d → d = start

theorem instanceAt_kept {time : Time} (hsupported : Supported rule) (hmonths : parseByMonth rule.byMonth = .ok months)
    (h : renderRecurrence rule start = .ok json) :
    InstanceAt (kept rule start months) (⟨(), start, time⟩ : Context Unit) d ↔ Instance (named rule start) start d := by
  unfold InstanceAt
  rw [← instance_kept hsupported hmonths h]
  exact ⟨fun hd => hd.1, fun hd => ⟨hd, untilAdmits_kept hd.untilDay⟩⟩

theorem instanceAt_of {time : Time} (h : Instance rule start d)
    (huntil : ∀ t, rule.bound = .untilTime t → d = t.date → instanceRid time t.date ≤ t) :
    InstanceAt rule (⟨(), start, time⟩ : Context Unit) d := by
  refine ⟨h, ?_⟩
  by_contra hnot
  obtain ⟨t, hbound, hlt, rfl⟩ := day_of_not_untilAdmits h hnot
  exact absurd (huntil t hbound rfl) (not_le_of_gt hlt)

theorem sameInstances_of_nothingLost {time : Time} (hsupported : Supported rule)
    (hmonths : parseByMonth rule.byMonth = .ok months) (h : renderRecurrence rule start = .ok json)
    (hlost : NothingLost rule start time) : SameInstances rule (kept rule start months) start time := by
  intro d
  rw [instanceAt_kept hsupported hmonths h]
  have hcut : ∀ t, rule.bound = .untilTime t → Instance (named rule start) start d → d = t.date →
      instanceRid time t.date ≤ t := by
    rintro t hbound hd rfl
    exact hlost.untilTime t hbound hd
  by_cases hnamed : WeekdayNamed rule start
  · have hdates := (sameDates_iff hsupported hnamed).mpr hlost.parts d
    exact ⟨fun hd => hdates.mp hd.1, fun hd => instanceAt_of (hdates.mpr hd) fun t hbound => hcut t hbound hd⟩
  · have halone := hlost.weekday.resolve_left hnamed
    unfold WeekdayNamed at hnamed
    simp only [Classical.not_imp] at hnamed
    have hyearly : rule.frequency ≠ .yearly := by
      rw [hnamed.1]
      decide
    have hbyMonth : (named rule start).byMonth = [] := if_neg hyearly
    constructor
    · intro hd
      obtain rfl := halone d (.inl hd)
      exact instance_start_iff.mpr ⟨fun hne => absurd hbyMonth hne, (instance_start_iff.mp hd.1).2⟩
    · intro hd
      obtain rfl := halone d (.inr hd)
      refine instanceAt_of ?_ fun t hbound => hcut t hbound hd
      exact instance_start_iff.mpr ⟨(hlost.parts _ hd).1 hyearly, (instance_start_iff.mp hd).2⟩

theorem nothingLost_of_sameInstances {time : Time} (hsupported : Supported rule)
    (hmonths : parseByMonth rule.byMonth = .ok months) (h : renderRecurrence rule start = .ok json)
    (hwritten : UntilWritten rule) (hsame : SameInstances rule (kept rule start months) start time) :
    NothingLost rule start time := by
  have hiff : ∀ d, InstanceAt rule (⟨(), start, time⟩ : Context Unit) d ↔ Instance (named rule start) start d :=
    fun d => (hsame d).trans (instanceAt_kept hsupported hmonths h)
  refine ⟨hwritten, ?_, ?_, ?_⟩
  · intro d hd
    exact rest_of_instance hsupported ((hiff d).mpr hd).1
  · intro t hbound hd
    have hadmits := ((hiff t.date).mpr hd).2
    unfold untilAdmits at hadmits
    rw [hbound] at hadmits
    exact of_decide_eq_true hadmits
  · by_cases hnamed : WeekdayNamed rule start
    · exact .inl hnamed
    · right
      intro d hd
      have hboth : InstanceAt rule (⟨(), start, time⟩ : Context Unit) d ∧ Instance (named rule start) start d := by
        rcases hd with hd | hd
        · exact ⟨hd, (hiff d).mp hd⟩
        · exact ⟨(hiff d).mpr hd, hd⟩
      exact eq_start_of_not_named hnamed hboth.1.1 hboth.2

/-- A rule that can be expanded and is written is read back as one that can be expanded, with the same instances,
just when nothing is lost. -/
theorem rendered_same_iff {time : Time} (hsupported : checkSupported rule = .ok ()) (hsized : Sized rule)
    (hmonths : parseByMonth rule.byMonth = .ok months) (h : renderRecurrence rule start = .ok json) :
    (∃ read, parseRecurrence json = .ok read ∧ checkSupported read = .ok () ∧
      (∃ months', parseByMonth read.byMonth = .ok months') ∧ SameInstances rule read start time) ↔
      NothingLost rule start time := by
  rw [checkSupported_eq_ok_iff] at hsupported
  obtain ⟨hread, hunread⟩ := parseRecurrence_rendered hsized hmonths h
  constructor
  · rintro ⟨read, hok, -, -, hsame⟩
    by_cases hwritten : UntilWritten rule
    · obtain rfl := Except.ok.inj ((hread hwritten).symm.trans hok)
      exact nothingLost_of_sameInstances hsupported hmonths h hwritten hsame
    · exact absurd hok (hunread hwritten read)
  · intro hlost
    obtain ⟨hkept, hexpands⟩ := supported_kept hsupported hmonths h
    refine ⟨_, hread hlost.untilWritten, checkSupported_eq_ok_iff.mpr hkept, hexpands, ?_⟩
    exact sameInstances_of_nothingLost hsupported hmonths h hlost

/-! ## A part that is lost -/

def Sample.firsts : RecurrenceRule :=
  { RecurrenceRule.new .daily with byMonthDay := [1], bound := .count 2 Nat.two_pos }

theorem firsts_sized : Sized Sample.firsts := by
  refine ⟨by decide, ?_, by decide⟩
  intro n pos h
  obtain rfl : 2 = n := by injection h
  decide

def Sample.everyDay : Json :=
  .obj [("pattern", .obj [("interval", .num 1), ("type", .str "daily")]),
    ("range", .obj [("type", .str "numbered"), ("startDate", .str "2024-01-01"), ("numberOfOccurrences", .num 2)])]

theorem render_firsts : renderRecurrence Sample.firsts Sample.newYear = .ok Sample.everyDay := rfl

/-- The second of January is written to Graph in place of the first of February. -/
theorem rendered_firsts_differ :
    ¬∀ (rule : RecurrenceRule) (start : Date) (time : Time) (months : Option (List Nat)) (json : Json),
      checkSupported rule = .ok () → Sized rule → parseByMonth rule.byMonth = .ok months →
      renderRecurrence rule start = .ok json →
      ∃ read, parseRecurrence json = .ok read ∧ checkSupported read = .ok () ∧
        (∃ months', parseByMonth read.byMonth = .ok months') ∧ SameInstances rule read start time := by
  intro h
  have hsupported : checkSupported Sample.firsts = .ok () := rfl
  have hmonths : parseByMonth Sample.firsts.byMonth = .ok none := rfl
  obtain ⟨read, hread, -, -, hsame⟩ := h _ _ .midnight _ _ hsupported firsts_sized hmonths render_firsts
  have hwritten : UntilWritten Sample.firsts := by
    intro t ht
    cases ht
  have hkept := (parseRecurrence_rendered firsts_sized hmonths render_firsts).1 hwritten
  obtain rfl := Except.ok.inj (hkept.symm.trans hread)
  have hlost := nothingLost_of_sameInstances (checkSupported_eq_ok_iff.mp hsupported) hmonths render_firsts hwritten hsame
  have hdates : occurrenceDates Sample.newYear (named Sample.firsts Sample.newYear)
      Sample.yearEnd 100 = .ok [Sample.newYear, Sample.january2] := by decide
  have hnamed := (mem_occurrenceDates_iff hdates).mp (List.mem_cons_of_mem _ (List.mem_singleton_self _))
  have hrest := hlost.parts _ hnamed.1
  obtain ⟨md, hmd, hday⟩ := hrest.2 (by decide) (.inl rfl) (by decide)
  rw [List.mem_singleton.mp hmd] at hday
  revert hday
  decide

def Sample.weeks : RecurrenceRule := { RecurrenceRule.new .weekly with bound := .count 3 Recurrence.Sample.three_pos }

theorem weeks_sized : Sized Sample.weeks := by
  refine ⟨by decide, ?_, by decide⟩
  intro n pos h
  obtain rfl : 3 = n := by injection h
  decide

theorem rendered_weeks_same : ∃ json read, renderRecurrence Sample.weeks Sample.newYear = .ok json ∧
      parseRecurrence json = .ok read ∧ SameInstances Sample.weeks read Sample.newYear .midnight := by
  have hlost : NothingLost Sample.weeks Sample.newYear .midnight := by
    have huntil : ∀ t, Sample.weeks.bound ≠ .untilTime t := by
      intro t ht
      cases ht
    refine ⟨fun t ht => absurd ht (huntil t), ?_, fun t ht => absurd ht (huntil t), .inl ?_⟩
    · intro d _
      exact ⟨fun _ hne => absurd rfl hne, fun _ hout => absurd hout (by decide)⟩
    · exact fun _ _ => weekdayOf_eq (.inl (by decide))
  have hrender : ∃ json, renderRecurrence Sample.weeks Sample.newYear = .ok json := ⟨_, rfl⟩
  obtain ⟨json, hjson⟩ := hrender
  obtain ⟨read, hread, -, -, hsame⟩ := (rendered_same_iff rfl weeks_sized rfl hjson).mpr hlost
  exact ⟨json, read, hjson, hread, hsame⟩

end Graph
end SyncEngine
