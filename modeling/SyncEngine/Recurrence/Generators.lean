import SyncEngine.Recurrence.Collect

/-!
# The generators

Each generator, started with the dates due before its first period collected, comes to the first dates that
are due: the start and the rule's candidates.  Between two periods it visits lies no candidate, and the
rounds it is given bring it past the bound.
-/

namespace SyncEngine
namespace Recurrence

open Civil Fallible

variable {rule : RecurrenceRule} {acc acc' : Acc} {rounds : Nat}

variable {i k step : Int}

/-- Between two multiples that follow each other there is none. -/
theorem not_dvd_between {j : Int} (hi : (i - k) % step = 0) (hj : (j - k) % step = 0)
    (h₁ : i < j) (h₂ : j < i + step) : False := by
  have hdvd : step ∣ j - i := by
    have hsub := Int.dvd_sub (Int.dvd_of_emod_eq_zero hj) (Int.dvd_of_emod_eq_zero hi)
    have heq : j - k - (i - k) = j - i := by omega
    rwa [heq] at hsub
  have hle := Int.le_of_dvd (by omega) hdvd
  omega

theorem emod_add_step (hi : (i - k) % step = 0) : (i + step - k) % step = 0 := by
  have heq : i + step - k = i - k + step := by omega
  rw [heq, Int.add_emod_right, hi]

/-! ## Days -/

def DailyCandidate (rule : RecurrenceRule) (start d : Date) : Prop :=
  (d.number - start.number) % rule.interval = 0 ∧ ByParts rule d

variable {start : Date}

theorem generateDaily_spec (hplain : ∀ nd ∈ rule.byDay, nd.nthOfPeriod = none) {date : Date}
    (hstart : acc.start = start) (hperiod : (date.number - start.number) % rule.interval = 0)
    (h : Upto (DailyCandidate rule start) acc (date.number + 1))
    (hrounds : acc.upper.number - date.number < rounds)
    (hgen : generateDaily rule rounds acc date = .ok acc') :
    FirstOf acc.count (Due (DailyCandidate rule start) acc) acc'.out := by
  induction rounds generalizing acc date with
  | zero =>
    obtain rfl := Except.ok.inj hgen
    exact h.finish_of_lt (by omega)
  | succ rounds ih =>
    obtain ⟨next, hnext, hgen⟩ := bind_eq_ok.mp hgen
    have hnumber := addDays_eq_ok_iff.mp hnext
    have hpos := rule.intervalPos
    have hperiod' : (next.number - start.number) % rule.interval = 0 := by
      rw [hnumber]
      exact emod_add_step hperiod
    have hnone : NoneIn (DailyCandidate rule start) (date.number + 1) next.number := by
      intro e he hlate hlt
      exact not_dvd_between hperiod he.1 (by omega) (by omega)
    split at hgen
    · rename_i hpast
      obtain rfl := Except.ok.inj hgen
      exact (h.skip hnone (by omega)).finish_of_lt hpast
    · split at hgen
      · rename_i hmatches
        obtain ⟨⟨stop, acc₁⟩, hemit, hgen⟩ := bind_eq_ok.mp hgen
        have hC : DailyCandidate rule start next := ⟨hperiod', (dailyMatches_iff hplain).mp hmatches⟩
        have hgoes := h.emit hC (by omega) hnone hemit
        cases stop with
        | true =>
          obtain rfl := Except.ok.inj hgen
          exact hgoes.over
        | false =>
          have hsame := hgoes.same
          have hdone := ih (hsame.start.trans hstart) hperiod' (hgoes.goesOn rfl) (by rw [hsame.upper]; omega) hgen
          rwa [hsame.count, hsame.due] at hdone
      · rename_i hno
        refine ih hstart hperiod' (h.skip ?_ (by omega)) (by omega) hgen
        intro e he hlate hlt
        by_cases heq : e = next
        · rw [heq] at he
          exact hno ((dailyMatches_iff hplain).mpr he.2)
        · have hne : e.number ≠ next.number := fun hn => heq (Date.number_injective hn)
          exact hnone e he hlate (by omega)

/-! ## Weeks -/

/-- The weeks from one that begins on `wkst`. -/
def weekIndex (wkst : Weekday) (d : Date) : Int := (d.number + 5 - wkst.offset) / 7

def WeeklyCandidate (rule : RecurrenceRule) (start d : Date) : Prop :=
  (weekIndex rule.firstDayOfWeek d - weekIndex rule.firstDayOfWeek start) % rule.interval = 0 ∧
    d.weekday ∈ weeklyTargets rule start

variable {anchor d : Date}

theorem weekIndex_eq_iff {wkst : Weekday} (hanchor : anchor.weekday = wkst) :
    weekIndex wkst d = weekIndex wkst anchor ↔ anchor.number ≤ d.number ∧ d.number < anchor.number + 7 := by
  rw [Date.weekday_eq_iff] at hanchor
  unfold weekIndex
  omega

theorem mem_weekDates {week : List Date}
    (hanchor : anchor.weekday = rule.firstDayOfWeek) (h : weekDates rule start anchor = .ok week) (d : Date) :
    d ∈ week ↔ d.weekday ∈ weeklyTargets rule start ∧ anchor.number ≤ d.number ∧ d.number < anchor.number + 7 := by
  obtain ⟨dates, hdates, h⟩ := bind_eq_ok.mp h
  obtain rfl := Except.ok.inj h
  rw [mem_sortDedup, mem_mapM hdates]
  rw [Date.weekday_eq_iff] at hanchor
  constructor
  · rintro ⟨weekday, hweekday, hd⟩
    have hnumber := addDays_eq_ok_iff.mp hd
    have hoffset := weekday.offset_lt
    unfold weekOffset at hnumber
    have hsame : d.weekday = weekday := by
      rw [Date.weekday_eq_iff]
      omega
    refine ⟨?_, by omega, by omega⟩
    rw [hsame]
    exact hweekday
  · rintro ⟨hweekday, hlo, hhi⟩
    refine ⟨d.weekday, hweekday, ?_⟩
    rw [addDays_eq_ok_iff]
    have hoffset := Date.weekday_eq_iff.mp (rfl : d.weekday = d.weekday)
    unfold weekOffset
    omega

variable {C : Date → Prop} {b : Int} {stop : Bool} {ds : List Date}

theorem Upto.emitWeek {b' : Int} (h : Upto C acc b) (hcovers : Covers C b b' ds) (hle : b ≤ b')
    (hemit : emitWeek acc ds = .ok (stop, acc')) : Goes C acc b' stop acc' := by
  induction ds generalizing acc b with
  | nil =>
    obtain ⟨rfl, rfl⟩ := Prod.mk.inj (Except.ok.inj hemit)
    exact ⟨.refl _, fun _ => h.skip hcovers.noneIn hle, fun he => nomatch he⟩
  | cons d ds ih =>
    have hd := (hcovers.mem d).mp List.mem_cons_self
    unfold Recurrence.emitWeek at hemit
    split at hemit
    · rename_i hpast
      obtain ⟨rfl, rfl⟩ := Prod.mk.inj (Except.ok.inj hemit)
      have hpassed : Upto C acc d.number := h.skip hcovers.noneBefore hd.2.1
      exact ⟨.refl _, (fun he => nomatch he), fun _ => hpassed.finish_of_lt hpast⟩
    · obtain ⟨⟨stop₁, acc₁⟩, hone, hrest⟩ := bind_eq_ok.mp hemit
      have hgoes := h.emit hd.1 hd.2.1 hcovers.noneBefore hone
      cases stop₁ with
      | true =>
        obtain ⟨rfl, rfl⟩ := Prod.mk.inj (Except.ok.inj hrest)
        exact hgoes.stopped
      | false => exact hgoes.trans (ih (hgoes.goesOn rfl) hcovers.tail (by omega) hrest)

theorem generateWeekly_spec (hstart : acc.start = start) (hanchor : anchor.weekday = rule.firstDayOfWeek)
    (hperiod : (weekIndex rule.firstDayOfWeek anchor - weekIndex rule.firstDayOfWeek start) % rule.interval = 0)
    (h : Upto (WeeklyCandidate rule start) acc anchor.number)
    (hrounds : acc.upper.number - anchor.number < rounds)
    (hgen : generateWeekly rule rounds acc anchor = .ok acc') :
    FirstOf acc.count (Due (WeeklyCandidate rule start) acc) acc'.out := by
  induction rounds generalizing acc anchor with
  | zero =>
    obtain rfl := Except.ok.inj hgen
    exact h.finish_of_lt (by omega)
  | succ rounds ih =>
    obtain ⟨week, hweek, hgen⟩ := bind_eq_ok.mp hgen
    obtain ⟨⟨stop, acc₁⟩, hemit, hgen⟩ := bind_eq_ok.mp hgen
    have hpos := rule.intervalPos
    have hmem := mem_weekDates hanchor hweek
    rw [hstart] at hmem
    have hcovers : Covers (WeeklyCandidate rule start) anchor.number (anchor.number + 7) week := by
      refine ⟨?_, ?_⟩
      · obtain ⟨dates, -, hsort⟩ := bind_eq_ok.mp hweek
        rw [← Except.ok.inj hsort]
        exact sortDedup_sorted dates
      · intro d
        rw [hmem]
        constructor
        · rintro ⟨hweekday, hin⟩
          refine ⟨⟨?_, hweekday⟩, hin⟩
          rw [(weekIndex_eq_iff hanchor).mpr hin]
          exact hperiod
        · rintro ⟨hC, hin⟩
          exact ⟨hC.2, hin⟩
    have hgoes := h.emitWeek hcovers (by omega) hemit
    have hsame := hgoes.same
    cases stop with
    | true =>
      obtain rfl := Except.ok.inj hgen
      exact hgoes.over
    | false =>
      obtain ⟨next, hnext, hgen⟩ := bind_eq_ok.mp hgen
      have hnumber := addDays_eq_ok_iff.mp hnext
      have hanchor' : next.weekday = rule.firstDayOfWeek := by
        rw [Date.weekday_eq_iff] at hanchor ⊢
        omega
      have hindex : weekIndex rule.firstDayOfWeek next = weekIndex rule.firstDayOfWeek anchor + rule.interval := by
        unfold weekIndex
        omega
      have hperiod' : (weekIndex rule.firstDayOfWeek next - weekIndex rule.firstDayOfWeek start) % rule.interval = 0 := by
        rw [hindex]
        exact emod_add_step hperiod
      have hupto : Upto (WeeklyCandidate rule start) acc₁ next.number := by
        refine (hgoes.goesOn rfl).skip ?_ (by omega)
        intro e he hlate hlt
        refine not_dvd_between hperiod he.1 ?_ ?_
        · rw [Date.weekday_eq_iff] at hanchor
          unfold weekIndex
          omega
        · rw [Date.weekday_eq_iff] at hanchor
          unfold weekIndex
          omega
      split at hgen
      · rename_i hpast
        obtain rfl := Except.ok.inj hgen
        have hdone := hupto.finish_of_lt hpast
        rwa [hsame.count, hsame.due] at hdone
      · have hdone := ih (hsame.start.trans hstart) hanchor' hperiod' hupto (by rw [hsame.upper]; omega) hgen
        rwa [hsame.count, hsame.due] at hdone

/-! ## Months -/

def MonthlyCandidate (rule : RecurrenceRule) (start d : Date) : Prop :=
  (d.monthIndex - start.monthIndex) % rule.interval = 0 ∧ MonthSelected rule start d

variable {year : Int} {month : Nat}

theorem addMonths_eq_some {year' : Int} {month' add : Nat} (h : addMonths year month add = some (year', month')) :
    1 ≤ month' ∧ month' ≤ 12 ∧ 12 * year' + ((month' : Int) - 1) = 12 * year + ((month : Int) - 1) + add := by
  unfold addMonths at h
  dsimp only at h
  split at h
  · obtain ⟨rfl, rfl⟩ := Prod.mk.inj (Option.some.inj h)
    omega
  · exact nomatch h

theorem addYears_eq_some {year' : Int} {interval : Nat} (h : addYears year interval = some year') :
    year' = year + interval := by
  unfold addYears at h
  split at h
  · exact (Option.some.inj h).symm
  · exact nomatch h

theorem orOutOfRange_eq_ok {α : Type} {x : Option α} {a : α} : orOutOfRange x = .ok a ↔ x = some a := by
  cases x <;> simp [orOutOfRange]

theorem monthIndex_iff (h₁ : 1 ≤ month) (h₂ : month ≤ 12) (d : Date) :
    (d.year = year ∧ d.month = month) ↔ d.monthIndex = 12 * year + ((month : Int) - 1) := by
  have hm₁ := d.isDate.1
  have hm₂ := d.isDate.2.1
  unfold Date.monthIndex
  omega

theorem covers_month (h₁ : 1 ≤ month) (h₂ : month ≤ 12) (hdays : daysInMonth year month rule start = .ok ds)
    (hC : ∀ d : Date, d.year = year → d.month = month → (C d ↔ MonthSelected rule start d)) :
    Covers C (monthStart (12 * year + ((month : Int) - 1))) (monthStart (12 * year + ((month : Int) - 1) + 1)) ds := by
  obtain ⟨hsorted, hmem⟩ := daysInMonth_spec hdays
  refine ⟨hsorted, ?_⟩
  intro d
  rw [hmem, ← Date.monthIndex_eq_iff, ← monthIndex_iff h₁ h₂]
  constructor
  · rintro ⟨hy, hm, hsel⟩
    exact ⟨(hC d hy hm).mpr hsel, hy, hm⟩
  · rintro ⟨hCd, hy, hm⟩
    exact ⟨hy, hm, (hC d hy hm).mp hCd⟩

theorem first_number {first : Date} (h₁ : 1 ≤ month) (h₂ : month ≤ 12)
    (h : ymd year month 1 = .ok first) : first.number = monthStart (12 * year + ((month : Int) - 1)) := by
  obtain ⟨hy, hm, hd⟩ := ymd_eq_ok_iff.mp h
  rw [monthStart_of h₁ h₂, Date.number, hy, hm, hd]

theorem generateMonthly_spec (hstart : acc.start = start) (h₁ : 1 ≤ month) (h₂ : month ≤ 12)
    (hperiod : (12 * year + ((month : Int) - 1) - start.monthIndex) % rule.interval = 0)
    (h : Upto (MonthlyCandidate rule start) acc (monthStart (12 * year + ((month : Int) - 1))))
    (hrounds : acc.upper.number - monthStart (12 * year + ((month : Int) - 1)) < rounds)
    (hgen : generateMonthly rule rounds acc year month = .ok acc') :
    FirstOf acc.count (Due (MonthlyCandidate rule start) acc) acc'.out := by
  induction rounds generalizing acc year month with
  | zero =>
    obtain rfl := Except.ok.inj hgen
    exact h.finish_of_lt (by omega)
  | succ rounds ih =>
    obtain ⟨first, hfirst, hgen⟩ := bind_eq_ok.mp hgen
    have hnumber := first_number h₁ h₂ hfirst
    have hpos := rule.intervalPos
    split at hgen
    · rename_i hpast
      obtain rfl := Except.ok.inj hgen
      have hpast' : acc.upper.number < first.number := hpast
      exact h.finish_of_lt (by omega)
    · obtain ⟨days, hdays, hgen⟩ := bind_eq_ok.mp hgen
      obtain ⟨⟨stop, acc₁⟩, hemit, hgen⟩ := bind_eq_ok.mp hgen
      rw [hstart] at hdays
      have hcovers : Covers (MonthlyCandidate rule start) (monthStart (12 * year + ((month : Int) - 1)))
          (monthStart (12 * year + ((month : Int) - 1) + 1)) days := by
        refine covers_month h₁ h₂ hdays ?_
        intro d hy hm
        have hindex := (monthIndex_iff h₁ h₂ d).mp ⟨hy, hm⟩
        unfold MonthlyCandidate
        rw [hindex]
        exact and_iff_right hperiod
      have hmono := monthStart_strictMono (Int.lt_succ (12 * year + ((month : Int) - 1)))
      have hgoes := h.emitAll hcovers (le_of_lt hmono) hemit
      have hsame := hgoes.same
      cases stop with
      | true =>
        obtain rfl := Except.ok.inj hgen
        exact hgoes.over
      | false =>
        obtain ⟨⟨year', month'⟩, hnext, hgen⟩ := bind_eq_ok.mp hgen
        obtain ⟨h₁', h₂', hindex⟩ := addMonths_eq_some (orOutOfRange_eq_ok.mp hnext)
        have hmono' : monthStart (12 * year + ((month : Int) - 1) + 1) ≤
            monthStart (12 * year + ((month : Int) - 1) + rule.interval) :=
          monthStart_strictMono.monotone (by omega)
        have hupto : Upto (MonthlyCandidate rule start) acc₁ (monthStart (12 * year' + ((month' : Int) - 1))) := by
          rw [hindex]
          refine (hgoes.goesOn rfl).skip ?_ hmono'
          intro e he hlate hlt
          have hin := e.inMonth
          refine not_dvd_between hperiod he.1 ?_ ?_
          · have hlt' := monthStart_strictMono.lt_iff_lt.mp (lt_of_le_of_lt hlate hin.2)
            omega
          · exact monthStart_strictMono.lt_iff_lt.mp (lt_of_le_of_lt hin.1 hlt)
        have hdone := ih (hsame.start.trans hstart) h₁' h₂' (by rw [hindex]; exact emod_add_step hperiod)
          hupto (by rw [hsame.upper, hindex]; omega) hgen
        rwa [hsame.count, hsame.due] at hdone

/-! ## Years -/

def YearlyCandidate (rule : RecurrenceRule) (months : List Nat) (start d : Date) : Prop :=
  (d.year - start.year) % rule.interval = 0 ∧ d.month ∈ months ∧ MonthSelected rule start d

theorem inYear (d : Date) : beforeYear d.year ≤ d.number ∧ d.number < beforeYear (d.year + 1) := d.isDate.inYear

theorem year_eq_iff : d.year = year ↔ beforeYear year ≤ d.number ∧ d.number < beforeYear (year + 1) := by
  constructor
  · rintro rfl
    exact inYear d
  · intro h
    rw [← yearOf_dayNumber d.isDate]
    exact yearOf_unique h.1 h.2

theorem beforeYear_eq_monthStart (year : Int) : beforeYear year = monthStart (12 * year) := by
  have hjanuary := @monthStart_of year 1 (le_refl 1) (by omega)
  have hindex : 12 * year + (((1 : Nat) : Int) - 1) = 12 * year := by omega
  rw [hindex] at hjanuary
  rw [hjanuary]
  unfold dayNumber
  have hnone : beforeMonth year 1 = 0 := rfl
  omega

variable {months : List Nat}

theorem Upto.emitMonths {ms : List Nat} (hstart : acc.start = start) (hperiod : (year - start.year) % rule.interval = 0)
    (hms : ms.Pairwise (· < ·)) (hrange : ∀ m ∈ ms, 1 ≤ m ∧ m ≤ 12 ∧ m ∈ months)
    (hleft : ∀ e, YearlyCandidate rule months start e → e.year = year → b ≤ e.number → e.month ∈ ms)
    (hb : beforeYear year ≤ b) (hbefore : ∀ m ∈ ms, b ≤ monthStart (12 * year + ((m : Int) - 1)))
    (hle : b ≤ beforeYear (year + 1)) (h : Upto (YearlyCandidate rule months start) acc b)
    (hemit : emitMonths rule year acc ms = .ok (stop, acc')) :
    Goes (YearlyCandidate rule months start) acc (beforeYear (year + 1)) stop acc' := by
  induction ms generalizing acc b with
  | nil =>
    obtain ⟨rfl, rfl⟩ := Prod.mk.inj (Except.ok.inj hemit)
    refine ⟨.refl _, fun _ => h.skip ?_ hle, fun he => nomatch he⟩
    intro e he hlate hlt
    have hyear : e.year = year := year_eq_iff.mpr ⟨by omega, hlt⟩
    exact absurd (hleft e he hyear hlate) List.not_mem_nil
  | cons m ms ih =>
    obtain ⟨days, hdays, hemit⟩ := bind_eq_ok.mp hemit
    obtain ⟨⟨stop₁, acc₁⟩, hone, hrest⟩ := bind_eq_ok.mp hemit
    obtain ⟨h₁, h₂, hm⟩ := hrange m List.mem_cons_self
    rw [hstart] at hdays
    have hcovers : Covers (YearlyCandidate rule months start) (monthStart (12 * year + ((m : Int) - 1)))
        (monthStart (12 * year + ((m : Int) - 1) + 1)) days := by
      refine covers_month h₁ h₂ hdays ?_
      intro d hy hmonth
      unfold YearlyCandidate
      rw [hy, hmonth]
      constructor
      · exact fun hC => hC.2.2
      · exact fun hsel => ⟨hperiod, hm, hsel⟩
    have hmono := monthStart_strictMono (Int.lt_succ (12 * year + ((m : Int) - 1)))
    have hend : monthStart (12 * year + ((m : Int) - 1) + 1) ≤ beforeYear (year + 1) := by
      rw [beforeYear_eq_monthStart]
      exact monthStart_strictMono.monotone (by omega)
    have hthis : Upto (YearlyCandidate rule months start) acc (monthStart (12 * year + ((m : Int) - 1))) := by
      refine h.skip ?_ (hbefore m List.mem_cons_self)
      intro e he hlate hlt
      have hyear : e.year = year := year_eq_iff.mpr ⟨by omega, by omega⟩
      have hmem := hleft e he hyear hlate
      have hmonth : m ≤ e.month := by
        rcases List.mem_cons.mp hmem with heq | hin
        · omega
        · exact le_of_lt (List.rel_of_pairwise_cons hms hin)
      have hstartMonth := monthStart_strictMono.monotone
        (show 12 * year + ((m : Int) - 1) ≤ e.monthIndex by unfold Date.monthIndex; omega)
      have hin := e.inMonth
      omega
    have hgoes := hthis.emitAll hcovers (le_of_lt hmono) hone
    have hsame := hgoes.same
    cases stop₁ with
    | true =>
      obtain ⟨rfl, rfl⟩ := Prod.mk.inj (Except.ok.inj hrest)
      exact hgoes.stopped
    | false =>
      refine hgoes.trans (ih (hsame.start.trans hstart) hms.of_cons (fun m' hm' => hrange m' (List.mem_cons_of_mem m hm')) (by
          intro e he hyear hlate
          have hin := e.inMonth
          have hbm := hbefore m List.mem_cons_self
          rcases List.mem_cons.mp (hleft e he hyear (by omega)) with heq | hmem
          · have hsameMonth := (monthIndex_iff h₁ h₂ e).mp ⟨hyear, heq⟩
            rw [hsameMonth] at hin
            omega
          · exact hmem) (by
          have hbm := hbefore m List.mem_cons_self
          omega) (by
          intro m' hm'
          have hlt : m < m' := List.rel_of_pairwise_cons hms hm'
          exact monthStart_strictMono.monotone (by omega)) hend (hgoes.goesOn rfl) hrest)

theorem generateYearly_spec (hstart : acc.start = start)
    (hms : months.Pairwise (· < ·)) (hrange : ∀ m ∈ months, 1 ≤ m ∧ m ≤ 12)
    (hperiod : (year - start.year) % rule.interval = 0)
    (h : Upto (YearlyCandidate rule months start) acc (beforeYear year))
    (hrounds : acc.upper.number - beforeYear year < rounds)
    (hgen : generateYearly rule months rounds acc year = .ok acc') :
    FirstOf acc.count (Due (YearlyCandidate rule months start) acc) acc'.out := by
  induction rounds generalizing acc year with
  | zero =>
    obtain rfl := Except.ok.inj hgen
    exact h.finish_of_lt (by omega)
  | succ rounds ih =>
    obtain ⟨first, hfirst, hgen⟩ := bind_eq_ok.mp hgen
    have hpos := rule.intervalPos
    have hnumber : first.number = beforeYear year := by
      rw [first_number (le_refl 1) (by omega) hfirst, beforeYear_eq_monthStart]
      congr 1
      omega
    split at hgen
    · rename_i hpast
      obtain rfl := Except.ok.inj hgen
      have hpast' : acc.upper.number < first.number := hpast
      exact h.finish_of_lt (by omega)
    · obtain ⟨⟨stop, acc₁⟩, hemit, hgen⟩ := bind_eq_ok.mp hgen
      have hlength := yearLength_pos year
      have hsucc := beforeYear_succ year
      have hgoes := Upto.emitMonths hstart hperiod hms
        (fun m hm => ⟨(hrange m hm).1, (hrange m hm).2, hm⟩) (fun e he _ _ => he.2.1) (le_refl _) (by
          intro m hm
          have hm₁ := (hrange m hm).1
          rw [beforeYear_eq_monthStart]
          exact monthStart_strictMono.monotone (by omega)) (by omega) h hemit
      have hsame := hgoes.same
      cases stop with
      | true =>
        obtain rfl := Except.ok.inj hgen
        exact hgoes.over
      | false =>
        obtain ⟨year', hnext, hgen⟩ := bind_eq_ok.mp hgen
        have hyear' := addYears_eq_some (orOutOfRange_eq_ok.mp hnext)
        have hlater : beforeYear (year + 1) ≤ beforeYear year' := beforeYear_mono (by omega)
        have hupto : Upto (YearlyCandidate rule months start) acc₁ (beforeYear year') := by
          refine (hgoes.goesOn rfl).skip ?_ hlater
          intro e he hlate hlt
          have hin := inYear e
          refine not_dvd_between hperiod he.1 ?_ ?_
          · by_contra hge
            have hmono := beforeYear_mono (show e.year + 1 ≤ year + 1 by omega)
            omega
          · by_contra hge
            have hmono := beforeYear_mono (show year' ≤ e.year by omega)
            omega
        have hdone := ih (hsame.start.trans hstart) (by rw [hyear']; exact emod_add_step hperiod) hupto
          (by rw [hsame.upper]; omega) hgen
        rwa [hsame.count, hsame.due] at hdone

end Recurrence
end SyncEngine
