import SyncEngine.Recurrence.Expand
import SyncEngine.Recurrence.Series

/-!
# No overflow but one

Each step with machine integers is the step without, but for the months: those before the start's and the interval
are added up in 32 bits, and with an interval just below the limit that overflows.
-/

namespace SyncEngine
namespace Recurrence

open Civil

open Fallible

namespace Checked

variable {α β : Type}

/-! ## Steps -/

section Steps

variable {f : α → Checked β} {g : α → Except ExpandError β}

theorem of_bind {x : Except ExpandError α} (h : ∀ a, x = .ok a → f a = of (g a)) : (of x >>= f) = of (x >>= g) := by
  cases x with
  | error e => rfl
  | ok a => exact h a rfl

theorem bind_of {x : Checked α} {y : Except ExpandError α}
    (hx : x = of y) (h : ∀ a, y = .ok a → f a = of (g a)) : (x >>= f) = of (y >>= g) := by
  rw [hx]
  exact of_bind h

theorem mapM_of {l : List α} (h : ∀ a ∈ l, f a = of (g a)) : l.mapM f = of (l.mapM g) := by
  induction l with
  | nil => rfl
  | cons a l ih =>
    rw [List.mapM_cons, List.mapM_cons]
    refine bind_of (h a List.mem_cons_self) fun b _ => ?_
    exact bind_of (ih fun a' ha' => h a' (List.mem_cons_of_mem a ha')) fun bs _ => rfl

theorem signed_of {bits : Nat} {n : Int} (hlow : -2 ^ (bits - 1) ≤ n) (hhigh : n < 2 ^ (bits - 1)) :
    signed bits n = of (.ok n) := if_pos ⟨hlow, hhigh⟩

theorem addDays_of (date : Date) (days : Int) : addDays date days = of (Recurrence.addDays date days) := by
  unfold addDays
  by_cases hfar : spanDays < days.natAbs
  · rw [if_pos hfar]
    cases hadd : Recurrence.addDays date days with
    | ok later =>
      have hnumber := addDays_eq_ok_iff.mp hadd
      have hdate := Clock.number_bounds date
      have hlater := Clock.number_bounds later
      have hwide : beforeYear 10000 - Clock.firstDay = 7304484 := by decide
      unfold spanDays at hfar
      omega
    | error e =>
      unfold Recurrence.addDays orOutOfRange at hadd
      split at hadd
      · exact nomatch hadd
      · rw [Except.error.inj hadd]
  · rw [if_neg hfar]

theorem monthDay_of {md : Int} {daysInMonth : Nat} (hmd : -2 ^ 31 ≤ md) (hlength : 28 ≤ daysInMonth ∧ daysInMonth ≤ 31) :
    monthDay md daysInMonth = of (.ok (Recurrence.monthDay md daysInMonth)) := by
  unfold monthDay Recurrence.monthDay
  by_cases hpos : 0 < md
  · rw [if_pos hpos, if_pos hpos]
    rfl
  · rw [if_neg hpos, if_neg hpos]
    by_cases hneg : md < 0
    · have hsum : signed 32 (daysInMonth + md) = of (.ok (daysInMonth + md)) := signed_of (by omega) (by omega)
      have hday : signed 32 (daysInMonth + md + 1) = of (.ok (daysInMonth + md + 1)) := signed_of (by omega) (by omega)
      rw [if_pos hneg, if_pos hneg, hsum]
      exact hday
    · rw [if_neg hneg, if_neg hneg]
      rfl

theorem weekOffset_of (wkst weekday : Weekday) :
    weekOffset wkst weekday = of (.ok (Recurrence.weekOffset wkst weekday)) := by
  have hwkst := wkst.offset_lt
  have hweekday := weekday.offset_lt
  have hbetween : signed 64 ((weekday.offset : Int) - wkst.offset) = of (.ok ((weekday.offset : Int) - wkst.offset)) :=
    signed_of (by omega) (by omega)
  unfold weekOffset
  rw [hbetween]
  rfl

end Steps

/-! ## The parts of a rule -/

/-- What the types of a rule hold. -/
structure InTypes (rule : RecurrenceRule) : Prop where
  interval : rule.interval < 2 ^ 32
  byMonthDay : ∀ md ∈ rule.byMonthDay, -2 ^ 31 ≤ md ∧ md < 2 ^ 31

variable {rule : RecurrenceRule} {year : Int} {month : Nat} {start : Date}

section Parts

theorem daysInMonth_bounds (date : Date) : 28 ≤ date.daysInMonth ∧ date.daysInMonth ≤ 31 :=
  monthLength_bounds date.year date.month

theorem anyMonthDay_of {date : Date} {days : List Int} (h : ∀ md ∈ days, -2 ^ 31 ≤ md) : anyMonthDay date days =
      of (.ok (days.any fun md => Recurrence.monthDay md date.daysInMonth == (date.day : Int))) := by
  induction days with
  | nil => rfl
  | cons md days ih =>
    unfold anyMonthDay
    rw [monthDay_of (h md List.mem_cons_self) (daysInMonth_bounds date)]
    show (if _ then _ else anyMonthDay date days) = _
    rw [ih fun md' hmd' => h md' (List.mem_cons_of_mem md hmd'), List.any_cons]
    split
    · rename_i hday
      rw [hday]
      rfl
    · rename_i hday
      rw [Bool.not_eq_true] at hday
      rw [hday]
      rfl

theorem dailyMatches_of (htypes : InTypes rule) (date : Date) :
    dailyMatches date rule = of (.ok (Recurrence.dailyMatches date rule)) := by
  have hany := @anyMonthDay_of date rule.byMonthDay fun md hmd => (htypes.byMonthDay md hmd).1
  unfold dailyMatches Recurrence.dailyMatches
  cases rule.byDay.isEmpty || rule.byDay.any fun nd => nd.day == date.weekday with
  | false => rfl
  | true =>
    cases rule.byMonthDay.isEmpty with
    | true => rfl
    | false => exact hany

theorem weekDates_of (start anchor : Date) : weekDates rule start anchor = of (Recurrence.weekDates rule start anchor) := by
  unfold weekDates Recurrence.weekDates
  refine bind_of (mapM_of fun weekday _ => ?_) fun week _ => rfl
  rw [weekOffset_of]
  exact addDays_of _ _

def dateIn (year : Int) (month daysInMonth : Nat) (day : Int) : Except ExpandError (Option Date) :=
  if 1 ≤ day ∧ day ≤ daysInMonth then do
    let date ← ymd year month day.toNat
    return some date
  else return none

theorem mapM_dateIn {daysInMonth : Nat} (days : List Int) :
    (do let dates ← days.mapM (dateIn year month daysInMonth)
        return dates.reduceOption) =
      (days.filter fun day => 1 ≤ day && day ≤ (daysInMonth : Int)).mapM fun day => ymd year month day.toNat := by
  induction days with
  | nil => rfl
  | cons day days ih =>
    have hhead : (decide (1 ≤ day) && decide (day ≤ (daysInMonth : Int))) = decide (1 ≤ day ∧ day ≤ daysInMonth) := by
      rw [Bool.decide_and]
    rw [List.mapM_cons, List.filter_cons, hhead]
    by_cases hin : 1 ≤ day ∧ day ≤ daysInMonth
    · have hday : dateIn year month daysInMonth day = (do let date ← ymd year month day.toNat; return some date) :=
        if_pos hin
      rw [hday, if_pos (decide_eq_true hin), List.mapM_cons, ← ih]
      cases ymd year month day.toNat with
      | error e => rfl
      | ok date =>
        cases hdays : days.mapM (dateIn year month daysInMonth) with
        | error e => rfl
        | ok dates => rfl
    · have hday : dateIn year month daysInMonth day = .ok none := if_neg hin
      rw [hday, if_neg (by simpa using hin), ← ih]
      cases hdays : days.mapM (dateIn year month daysInMonth) with
      | error e => rfl
      | ok dates => rfl

theorem monthDayDate_of {daysInMonth : Nat} {md : Int} (hmd : -2 ^ 31 ≤ md)
    (hlength : 28 ≤ daysInMonth ∧ daysInMonth ≤ 31) : monthDayDate year month daysInMonth md =
      of (dateIn year month daysInMonth (Recurrence.monthDay md daysInMonth)) := by
  unfold monthDayDate dateIn
  rw [monthDay_of hmd hlength]
  show (if _ then _ else _) = _
  split
  · exact of_bind fun date _ => rfl
  · rfl

theorem monthDayDates_of (htypes : InTypes rule) :
    monthDayDates year month rule.byMonthDay = of (Recurrence.monthDayDates year month rule.byMonthDay) := by
  unfold monthDayDates Recurrence.monthDayDates
  refine of_bind fun first _ => ?_
  have hlength := daysInMonth_bounds first
  have hdates : rule.byMonthDay.mapM (monthDayDate year month first.daysInMonth) =
      of ((rule.byMonthDay.map fun md => Recurrence.monthDay md first.daysInMonth).mapM
        (dateIn year month first.daysInMonth)) := by
    rw [List.mapM_map]
    exact mapM_of fun md hmd => monthDayDate_of (htypes.byMonthDay md hmd).1 hlength
  rw [hdates, ← mapM_dateIn]
  exact of_bind fun dates _ => rfl

theorem daysInMonth_of (htypes : InTypes rule) :
    daysInMonth year month rule start = of (Recurrence.daysInMonth year month rule start) := by
  have hdays := @monthDayDates_of rule year month htypes
  unfold daysInMonth Recurrence.daysInMonth
  refine bind_of ?_ fun days _ => rfl
  unfold namedDates Recurrence.namedDates
  split
  · split
    · rfl
    · rfl
  · split
    · exact hdays
    · unfold commonDates Recurrence.commonDates
      exact of_bind fun weekdays _ => bind_of hdays fun days _ => rfl

end Parts

/-! ## Bounds that stay -/

section Bounds

variable {acc acc' : Acc} {stop : Bool}

theorem emit_same {d : Date} (h : acc.emit d = .ok (stop, acc')) : SameBounds acc acc' := by
  obtain ⟨-, -, rfl⟩ | ⟨-, -, -, rfl⟩ | ⟨-, -, rfl, -⟩ := emit_cases h
  · exact .refl _
  · exact .refl _
  · exact ⟨rfl, rfl, rfl, rfl⟩

variable {ds : List Date}

theorem emitAll_same (h : acc.emitAll ds = .ok (stop, acc')) : SameBounds acc acc' := by
  induction ds generalizing acc with
  | nil =>
    obtain ⟨-, rfl⟩ := Prod.mk.inj (Except.ok.inj h)
    exact .refl _
  | cons d ds ih =>
    obtain ⟨⟨stop₁, acc₁⟩, hfirst, h⟩ := bind_eq_ok.mp h
    have hsame := emit_same hfirst
    cases stop₁ with
    | true =>
      obtain ⟨-, rfl⟩ := Prod.mk.inj (Except.ok.inj h)
      exact hsame
    | false => exact hsame.trans (ih h)

theorem emitWeek_same (h : emitWeek acc ds = .ok (stop, acc')) : SameBounds acc acc' := by
  induction ds generalizing acc with
  | nil =>
    obtain ⟨-, rfl⟩ := Prod.mk.inj (Except.ok.inj h)
    exact .refl _
  | cons d ds ih =>
    unfold emitWeek at h
    split at h
    · obtain ⟨-, rfl⟩ := Prod.mk.inj (Except.ok.inj h)
      exact .refl _
    · obtain ⟨⟨stop₁, acc₁⟩, hfirst, h⟩ := bind_eq_ok.mp h
      have hsame := emit_same hfirst
      cases stop₁ with
      | true =>
        obtain ⟨-, rfl⟩ := Prod.mk.inj (Except.ok.inj h)
        exact hsame
      | false => exact hsame.trans (ih h)

theorem emitMonths_same {months : List Nat} (h : Recurrence.emitMonths rule year acc months = .ok (stop, acc')) :
    SameBounds acc acc' := by
  induction months generalizing acc with
  | nil =>
    obtain ⟨-, rfl⟩ := Prod.mk.inj (Except.ok.inj h)
    exact .refl _
  | cons month months ih =>
    obtain ⟨days, -, h⟩ := bind_eq_ok.mp h
    obtain ⟨⟨stop₁, acc₁⟩, hfirst, h⟩ := bind_eq_ok.mp h
    have hsame := emitAll_same hfirst
    cases stop₁ with
    | true =>
      obtain ⟨-, rfl⟩ := Prod.mk.inj (Except.ok.inj h)
      exact hsame
    | false => exact hsame.trans (ih h)

end Bounds

/-! ## The loops -/

section Loops

variable {acc : Acc} {rounds rounds' : Nat}

theorem generateDaily_of (htypes : InTypes rule) {date : Date} (hpos : 0 < rounds) (hpos' : 0 < rounds')
    (h : acc.upper.number - date.number < rounds) (h' : acc.upper.number - date.number < rounds') :
    generateDaily rule rounds acc date = of (Recurrence.generateDaily rule rounds' acc date) := by
  induction rounds generalizing rounds' acc date with
  | zero => exact absurd hpos (lt_irrefl 0)
  | succ rounds ih =>
    obtain ⟨rounds', rfl⟩ : ∃ n, rounds' = n + 1 := ⟨rounds' - 1, by omega⟩
    unfold generateDaily Recurrence.generateDaily
    refine bind_of (addDays_of _ _) fun next hnext => ?_
    have hnumber := addDays_eq_ok_iff.mp hnext
    have hinterval := rule.intervalPos
    by_cases hpast : acc.upper < next
    · rw [if_pos hpast, if_pos hpast]
      rfl
    · have hle : next.number ≤ acc.upper.number := not_lt.mp hpast
      rw [if_neg hpast, if_neg hpast, dailyMatches_of htypes]
      show (if _ then _ else _) = _
      split
      · refine of_bind fun r hemit => ?_
        obtain ⟨stop, acc₁⟩ := r
        have hupper := (emit_same hemit).upper
        cases stop with
        | true => rfl
        | false =>
          exact ih (by omega) (by omega) (by rw [hupper]; omega) (by rw [hupper]; omega)
      · exact ih (by omega) (by omega) (by omega) (by omega)

theorem generateWeekly_of {anchor : Date} (hpos : 0 < rounds) (hpos' : 0 < rounds')
    (h : acc.upper.number - anchor.number < rounds) (h' : acc.upper.number - anchor.number < rounds') :
    generateWeekly rule (rule.interval * 7) rounds acc anchor =
      of (Recurrence.generateWeekly rule rounds' acc anchor) := by
  induction rounds generalizing rounds' acc anchor with
  | zero => exact absurd hpos (lt_irrefl 0)
  | succ rounds ih =>
    obtain ⟨rounds', rfl⟩ : ∃ n, rounds' = n + 1 := ⟨rounds' - 1, by omega⟩
    unfold generateWeekly Recurrence.generateWeekly
    refine bind_of (weekDates_of _ _) fun week _ => ?_
    refine of_bind fun r hemit => ?_
    obtain ⟨stop, acc₁⟩ := r
    have hupper := (emitWeek_same hemit).upper
    cases stop with
    | true => rfl
    | false =>
      refine bind_of (addDays_of _ _) fun next hnext => ?_
      have hnumber := addDays_eq_ok_iff.mp hnext
      have hinterval := rule.intervalPos
      by_cases hpast : acc₁.upper < next
      · rw [if_pos hpast, if_pos hpast]
        rfl
      · have hle : next.number ≤ acc₁.upper.number := not_lt.mp hpast
        rw [if_neg hpast, if_neg hpast]
        rw [hupper] at hle
        exact ih (by omega) (by omega) (by rw [hupper]; omega) (by rw [hupper]; omega)

theorem emitMonths_of (htypes : InTypes rule) (months : List Nat) :
    emitMonths rule year acc months = of (Recurrence.emitMonths rule year acc months) := by
  induction months generalizing acc with
  | nil => rfl
  | cons month months ih =>
    unfold emitMonths Recurrence.emitMonths
    refine bind_of (daysInMonth_of htypes) fun days _ => ?_
    refine of_bind fun r _ => ?_
    obtain ⟨stop, acc₁⟩ := r
    cases stop with
    | true => rfl
    | false => exact ih

/-- A year has 365 days at least, and the last round is the one that ends the loop. -/
theorem generateYearly_of (htypes : InTypes rule) {months : List Nat} (hpos : 0 < rounds) (hpos' : 0 < rounds')
    (h : acc.upper.number - beforeYear year + 365 < 365 * rounds)
    (h' : acc.upper.number - beforeYear year + 365 < 365 * rounds') :
    generateYearly rule months rounds acc year = of (Recurrence.generateYearly rule months rounds' acc year) := by
  induction rounds generalizing rounds' acc year with
  | zero => exact absurd hpos (lt_irrefl 0)
  | succ rounds ih =>
    obtain ⟨rounds', rfl⟩ : ∃ n, rounds' = n + 1 := ⟨rounds' - 1, by omega⟩
    unfold generateYearly Recurrence.generateYearly
    refine of_bind fun first hfirst => ?_
    have hnumber : first.number = beforeYear year := by
      rw [first_number (le_refl 1) (by omega) hfirst, beforeYear_eq_monthStart]
      congr 1
      omega
    by_cases hpast : acc.upper < first
    · rw [if_pos hpast, if_pos hpast]
      rfl
    · have hle : first.number ≤ acc.upper.number := not_lt.mp hpast
      rw [if_neg hpast, if_neg hpast]
      refine bind_of (emitMonths_of htypes months) fun r hemit => ?_
      obtain ⟨stop, acc₁⟩ := r
      have hupper := (emitMonths_same hemit).upper
      cases stop with
      | true => rfl
      | false =>
        refine of_bind fun year' hnext => ?_
        have hinterval := rule.intervalPos
        have hyear' := addYears_eq_some (orOutOfRange_eq_ok.mp hnext)
        have hlater : beforeYear (year + 1) ≤ beforeYear year' := beforeYear_mono (by omega)
        have hlength : 365 ≤ yearLength year := by
          unfold yearLength
          split
          · omega
          · omega
        have hsucc := beforeYear_succ year
        exact ih (by omega) (by omega) (by rw [hupper]; omega) (by rw [hupper]; omega)

end Loops

/-! ## The months of a monthly rule -/

section Months

variable {add rounds rounds' : Nat} {acc : Acc}

/-- The months before the start's and the interval: each fits into 32 bits, and their sum does not. -/
def TooFar (month add : Nat) : Prop := add < 2 ^ 31 ∧ 2 ^ 31 ≤ month - 1 + add

theorem addMonths_of (hmonth : 1 ≤ month ∧ month ≤ 12) (hyear : -9999 ≤ year ∧ year ≤ 9999)
    (hnear : ¬TooFar month add) : addMonths year month add = of (.ok (Recurrence.addMonths year month add)) := by
  have hbefore : signed 32 ((month : Int) - 1) = of (.ok ((month : Int) - 1)) := signed_of (by omega) (by omega)
  unfold addMonths
  rw [hbefore]
  by_cases hwide : 2 ^ 31 ≤ add
  · have hnone : Recurrence.addMonths year month add = none := by
      unfold Recurrence.addMonths
      simp only [Bool.and_eq_true, decide_eq_true_eq]
      rw [if_neg (by omega)]
    rw [hnone]
    show (if _ then _ else _) = _
    rw [if_pos hwide]
    rfl
  · unfold TooFar at hnear
    have hsum : signed 32 ((month : Int) - 1 + add) = of (.ok ((month : Int) - 1 + add)) :=
      signed_of (by omega) (by omega)
    have hyear' : signed 32 (year + ((month : Int) - 1 + add) / 12) =
        of (.ok (year + ((month : Int) - 1 + add) / 12)) := signed_of (by omega) (by omega)
    have hmonth' : signed 32 (((month : Int) - 1 + add) % 12 + 1) = of (.ok (((month : Int) - 1 + add) % 12 + 1)) :=
      signed_of (by omega) (by omega)
    show (if _ then _ else _) = _
    rw [if_neg hwide, hsum]
    show (signed 32 (year + ((month : Int) - 1 + add) / 12) >>= _) = _
    rw [hyear']
    show (signed 32 (((month : Int) - 1 + add) % 12 + 1) >>= _) = _
    rw [hmonth']
    unfold Recurrence.addMonths
    show (if _ then _ else _) = _
    by_cases hin : -2 ^ 15 ≤ year + ((month : Int) - 1 + add) / 12 ∧ year + ((month : Int) - 1 + add) / 12 < 2 ^ 15
    · rw [if_pos ⟨hin.1, hin.2, by omega⟩]
      simp only [Bool.and_eq_true, decide_eq_true_eq]
      rw [if_pos ⟨⟨by omega, hin.1⟩, hin.2⟩]
      rfl
    · rw [if_neg fun h => hin ⟨h.1, h.2.1⟩]
      simp only [Bool.and_eq_true, decide_eq_true_eq]
      rw [if_neg fun h => hin ⟨h.1.2, h.2⟩]
      rfl

theorem addMonths_stuck (hmonth : month ≤ 12) (hfar : TooFar month add) : addMonths year month add = stuck := by
  have hbefore : signed 32 ((month : Int) - 1) = of (.ok ((month : Int) - 1)) := signed_of (by omega) (by omega)
  have hsum : signed 32 ((month : Int) - 1 + add) = stuck := by
    unfold signed
    rw [if_neg (by unfold TooFar at hfar; omega)]
  unfold addMonths
  rw [hbefore]
  show (if _ then _ else _) = _
  rw [if_neg (Nat.not_le_of_lt hfar.1)]
  show (signed 32 ((month : Int) - 1 + add) >>= _) = _
  rw [hsum]
  rfl

/-- A month that does not lie past the bound, whose days are emitted without satisfying `COUNT`. -/
def MovesOn (rule : RecurrenceRule) (acc : Acc) (year : Int) (month : Nat) : Prop :=
  ∃ first days acc', ymd year month 1 = .ok first ∧ first ≤ acc.upper ∧
    Recurrence.daysInMonth year month rule acc.start = .ok days ∧ acc.emitAll days = .ok (false, acc')

/-- After the first month no interval is too long: it has led to a year that 16 bits hold. -/
theorem generateMonthly_of (htypes : InTypes rule) (hmonth : 1 ≤ month ∧ month ≤ 12)
    (hnear : ¬(TooFar month rule.interval ∧ MovesOn rule acc year month)) (hpos : 0 < rounds) (hpos' : 0 < rounds')
    (h : acc.upper.number - monthStart (12 * year + ((month : Int) - 1)) + 1 < rounds)
    (h' : acc.upper.number - monthStart (12 * year + ((month : Int) - 1)) + 1 < rounds') :
    generateMonthly rule rounds acc year month = of (Recurrence.generateMonthly rule rounds' acc year month) := by
  induction rounds generalizing rounds' acc year month with
  | zero => exact absurd hpos (lt_irrefl 0)
  | succ rounds ih =>
    obtain ⟨rounds', rfl⟩ : ∃ n, rounds' = n + 1 := ⟨rounds' - 1, by omega⟩
    unfold generateMonthly Recurrence.generateMonthly
    refine of_bind fun first hfirst => ?_
    have hnumber := first_number hmonth.1 hmonth.2 hfirst
    by_cases hpast : acc.upper < first
    · rw [if_pos hpast, if_pos hpast]
      rfl
    · have hle : first.number ≤ acc.upper.number := not_lt.mp hpast
      rw [if_neg hpast, if_neg hpast]
      refine bind_of (daysInMonth_of htypes) fun days hdays => ?_
      refine of_bind fun r hemit => ?_
      obtain ⟨stop, acc₁⟩ := r
      have hupper := (emitAll_same hemit).upper
      cases stop with
      | true => rfl
      | false =>
        have hclose : ¬TooFar month rule.interval :=
          fun hfar => hnear ⟨hfar, first, days, acc₁, hfirst, not_lt.mp hpast, hdays, hemit⟩
        have hyear : -9999 ≤ year ∧ year ≤ 9999 := by
          have hbounds := first.inRange
          rw [(ymd_eq_ok_iff.mp hfirst).1] at hbounds
          exact hbounds
        show (addMonths year month rule.interval >>= _) = _
        rw [addMonths_of hmonth hyear hclose]
        show (of (orOutOfRange (Recurrence.addMonths year month rule.interval)) >>= _) = of (_ >>= _)
        refine of_bind fun r hnext => ?_
        obtain ⟨year', month'⟩ := r
        have hsome := orOutOfRange_eq_ok.mp hnext
        obtain ⟨h₁, h₂, hindex⟩ := addMonths_eq_some hsome
        have hshort : ¬TooFar month' rule.interval := by
          unfold TooFar
          have hyear' : year' < 2 ^ 15 := by
            unfold Recurrence.addMonths at hsome
            dsimp only at hsome
            split at hsome
            · rename_i hfits
              simp only [Bool.and_eq_true, decide_eq_true_eq] at hfits
              rw [← (Prod.mk.inj (Option.some.inj hsome)).1]
              exact hfits.2
            · exact nomatch hsome
          omega
        have hinterval := rule.intervalPos
        have hlater : monthStart (12 * year + ((month : Int) - 1)) < monthStart (12 * year' + ((month' : Int) - 1)) :=
          monthStart_strictMono (by omega)
        exact ih ⟨h₁, h₂⟩ (fun hfar => hshort hfar.1) (by omega) (by omega) (by rw [hupper]; omega)
          (by rw [hupper]; omega)

theorem generateMonthly_stuck (htypes : InTypes rule) (hmonth : month ≤ 12) (hfar : TooFar month rule.interval)
    (hmoves : MovesOn rule acc year month) : generateMonthly rule (rounds + 1) acc year month = stuck := by
  obtain ⟨first, days, acc₁, hfirst, hle, hdays, hemit⟩ := hmoves
  unfold generateMonthly
  rw [hfirst]
  show (if _ then _ else _) = _
  rw [if_neg (not_lt.mpr hle), daysInMonth_of htypes, hdays]
  show (of (acc.emitAll days) >>= _) = _
  rw [hemit]
  show (addMonths year month rule.interval >>= _) = _
  rw [addMonths_stuck hmonth hfar]
  rfl

end Months

end Checked
end Recurrence
end SyncEngine
