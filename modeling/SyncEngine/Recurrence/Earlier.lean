import SyncEngine.Recurrence.Excluded

/-!
# An earlier end

What is collected up to an earlier bound is what is collected up to a later one, cut there.  So a rule that can be
expanded to the end of a window can be expanded to an `UNTIL` before it as well.
-/

namespace SyncEngine
namespace Recurrence

open Fallible

/-- What is collected so far, up to an earlier bound. -/
def Acc.cut (acc : Acc) (upper : Date) : Acc := { acc with out := acc.out.filter (· ≤ upper), upper := upper }

/-- The rule with another end. -/
def RecurrenceRule.ending (rule : RecurrenceRule) (bound : RecurrenceBound) (skip : RecurrenceSkip) :
    RecurrenceRule :=
  { rule with bound := bound, skip := skip }

/-- Nothing is counted, and the bound is not before `upper`. -/
structure Endless (upper : Date) (acc : Acc) : Prop where
  count : acc.count = none
  upper : upper ≤ acc.upper

variable {acc acc' : Acc} {upper d : Date} {stop : Bool} {rule : RecurrenceRule} {bound : RecurrenceBound}
variable {skip : RecurrenceSkip}

theorem Endless.with (h : Endless upper acc) (out : List Date) : Endless upper (acc.with out) := ⟨h.count, h.upper⟩

theorem Endless.full (h : Endless upper acc) : acc.full = false := by
  unfold Acc.full
  rw [h.count]
  rfl

theorem cut_admits (h : Endless upper acc) : (acc.cut upper).admits d = (acc.admits d && decide (d ≤ upper)) := by
  rw [Bool.eq_iff_iff, Bool.and_eq_true, decide_eq_true_eq, Acc.admits_iff, Acc.admits_iff]
  show acc.start ≤ d ∧ d ≤ upper ∧ acc.byMonth.all (·.contains d.month) = true ↔ _
  constructor
  · exact fun hd => ⟨⟨hd.1, le_trans hd.2.1 h.upper, hd.2.2⟩, hd.2.1⟩
  · exact fun hd => ⟨hd.1.1, hd.2, hd.1.2.2⟩

theorem emit_cut (h : Endless upper acc) (hemit : acc.emit d = .ok (stop, acc')) :
    stop = false ∧ Endless upper acc' ∧ (acc.cut upper).emit d = .ok (false, acc'.cut upper) := by
  have hfull : (acc.cut upper).full = false := Endless.full ⟨h.count, le_refl _⟩
  have hadmits := cut_admits (d := d) h
  unfold Acc.emit
  rw [hadmits]
  obtain ⟨hno, rfl, rfl⟩ | ⟨hyes, hmem, rfl, rfl⟩ | ⟨hyes, hmem, rfl, rfl⟩ := emit_cases hemit
  · rw [hno]
    exact ⟨rfl, h, rfl⟩
  · refine ⟨h.full, h, ?_⟩
    rw [hyes]
    by_cases hle : d ≤ upper
    · have hcut : d ∈ (acc'.cut upper).out := List.mem_filter.mpr ⟨hmem, decide_eq_true hle⟩
      rw [decide_eq_true hle, if_neg (by simp), if_pos hcut, hfull]
    · rw [decide_eq_false hle]
      rfl
  · refine ⟨(h.with _).full, h.with _, ?_⟩
    have hroom : ¬acc.cap < (acc.out ++ [d]).length := by
      intro hover
      unfold Acc.emit at hemit
      rw [hyes, if_neg (by simp), if_neg hmem] at hemit
      dsimp only at hemit
      rw [if_pos hover] at hemit
      exact nomatch hemit
    rw [hyes]
    by_cases hle : d ≤ upper
    · have hcut : d ∉ (acc.cut upper).out := fun hin => hmem (List.mem_of_mem_filter hin)
      have hout : (acc.cut upper).out ++ [d] = ((acc.with (acc.out ++ [d])).cut upper).out := by
        show acc.out.filter _ ++ [d] = (acc.out ++ [d]).filter _
        rw [List.filter_append, List.filter_singleton, decide_eq_true hle]
        rfl
      have hlength : ¬(acc.cut upper).cap < ((acc.cut upper).out ++ [d]).length := by
        show ¬acc.cap < _
        have hfilter := List.length_filter_le (fun e => decide (e ≤ upper)) acc.out
        have hsize : (acc.cut upper).out.length ≤ acc.out.length := hfilter
        rw [List.length_append] at hroom ⊢
        omega
      rw [decide_eq_true hle, if_neg (by simp), if_neg hcut]
      dsimp only
      rw [hout] at hlength ⊢
      rw [if_neg hlength]
      exact congrArg _ (Prod.ext (Endless.full ⟨h.count, le_refl _⟩) rfl)
    · rw [decide_eq_false hle]
      show Except.ok (false, acc.cut upper) = _
      have hout : (acc.out ++ [d]).filter (fun e => decide (e ≤ upper)) = acc.out.filter fun e => decide (e ≤ upper) := by
        rw [List.filter_append, List.filter_singleton, decide_eq_false hle]
        exact List.append_nil _
      unfold Acc.cut Acc.with
      dsimp only
      rw [hout]

theorem emitAll_cut {ds : List Date} (h : Endless upper acc) (hemit : acc.emitAll ds = .ok (stop, acc')) :
    stop = false ∧ Endless upper acc' ∧ (acc.cut upper).emitAll ds = .ok (false, acc'.cut upper) := by
  induction ds generalizing acc with
  | nil =>
    obtain ⟨rfl, rfl⟩ := Prod.mk.inj (Except.ok.inj hemit)
    exact ⟨rfl, h, rfl⟩
  | cons d ds ih =>
    obtain ⟨⟨stop₁, acc₁⟩, hfirst, hemit⟩ := bind_eq_ok.mp hemit
    obtain ⟨rfl, h₁, hcut⟩ := emit_cut h hfirst
    obtain ⟨hstop, h', hrest⟩ := ih h₁ hemit
    refine ⟨hstop, h', ?_⟩
    unfold Acc.emitAll
    rw [hcut]
    exact hrest

/-- A week may be over earlier; if it is not, what is collected is the same. -/
theorem emitWeek_cut {ds : List Date} (h : Endless upper acc) (hemit : emitWeek acc ds = .ok (stop, acc')) :
    ∃ stop' out, emitWeek (acc.cut upper) ds = .ok (stop', out) ∧
      (stop' = false → stop = false ∧ Endless upper acc' ∧ out = acc'.cut upper) := by
  induction ds generalizing acc with
  | nil =>
    obtain ⟨rfl, rfl⟩ := Prod.mk.inj (Except.ok.inj hemit)
    exact ⟨false, _, rfl, fun _ => ⟨rfl, h, rfl⟩⟩
  | cons d ds ih =>
    unfold emitWeek at hemit ⊢
    by_cases hpast : upper < d
    · exact ⟨true, acc.cut upper, if_pos hpast, fun hfalse => absurd hfalse.symm Bool.false_ne_true⟩
    · have hcut : ¬(acc.cut upper).upper < d := hpast
      rw [if_neg hcut]
      by_cases hlater : acc.upper < d
      · exact absurd (lt_of_le_of_lt h.upper hlater) hpast
      · rw [if_neg hlater] at hemit
        obtain ⟨⟨stop₁, acc₁⟩, hfirst, hemit⟩ := bind_eq_ok.mp hemit
        obtain ⟨rfl, h₁, hfirst'⟩ := emit_cut h hfirst
        obtain ⟨stop', out, hrest, hsame⟩ := ih h₁ hemit
        refine ⟨stop', out, ?_, hsame⟩
        rw [hfirst']
        exact hrest

/-! ## The generators -/

section Generators

variable {rounds rounds' : Nat} {date : Date}

theorem generateDaily_cut (hle : rounds' ≤ rounds) (h : Endless upper acc)
    (hgen : generateDaily rule rounds acc date = .ok acc') :
    ∃ out, generateDaily (rule.ending bound skip) rounds' (acc.cut upper) date = .ok out := by
  induction rounds' generalizing rounds acc date with
  | zero => exact ⟨_, rfl⟩
  | succ rounds' ih =>
    obtain ⟨rounds, rfl⟩ : ∃ n, rounds = n + 1 := ⟨rounds - 1, by omega⟩
    unfold generateDaily at hgen ⊢
    obtain ⟨next, hnext, hgen⟩ := bind_eq_ok.mp hgen
    have hstep : addDays date ((rule.ending bound skip).interval : Int) = .ok next := hnext
    rw [hstep]
    show ∃ out, (if (acc.cut upper).upper < next then Except.ok (acc.cut upper) else _) = Except.ok out
    by_cases hpast : upper < next
    · exact ⟨_, if_pos hpast⟩
    · have hcut : ¬(acc.cut upper).upper < next := hpast
      have hlater : ¬acc.upper < next := fun hlt => hpast (lt_of_le_of_lt h.upper hlt)
      rw [if_neg hcut]
      rw [if_neg hlater] at hgen
      have hmatches : dailyMatches next (rule.ending bound skip) = dailyMatches next rule := rfl
      rw [hmatches]
      by_cases hday : dailyMatches next rule = true
      · rw [if_pos hday] at hgen ⊢
        obtain ⟨⟨stop, acc₁⟩, hemit, hgen⟩ := bind_eq_ok.mp hgen
        obtain ⟨rfl, h₁, hemit'⟩ := emit_cut h hemit
        rw [hemit']
        exact ih (by omega) h₁ hgen
      · rw [if_neg hday] at hgen ⊢
        exact ih (by omega) h hgen

theorem generateWeekly_cut (hle : rounds' ≤ rounds) (h : Endless upper acc)
    (hgen : generateWeekly rule rounds acc date = .ok acc') :
    ∃ out, generateWeekly (rule.ending bound skip) rounds' (acc.cut upper) date = .ok out := by
  induction rounds' generalizing rounds acc date with
  | zero => exact ⟨_, rfl⟩
  | succ rounds' ih =>
    obtain ⟨rounds, rfl⟩ : ∃ n, rounds = n + 1 := ⟨rounds - 1, by omega⟩
    unfold generateWeekly at hgen ⊢
    obtain ⟨week, hweek, hgen⟩ := bind_eq_ok.mp hgen
    obtain ⟨⟨stop, acc₁⟩, hemit, hgen⟩ := bind_eq_ok.mp hgen
    obtain ⟨stop', out, hemit', hsame⟩ := emitWeek_cut h hemit
    have hdates : weekDates (rule.ending bound skip) (acc.cut upper).start date = .ok week := hweek
    rw [hdates]
    show ∃ out', (emitWeek (acc.cut upper) week >>= _) = Except.ok out'
    rw [hemit']
    cases stop' with
    | true => exact ⟨out, rfl⟩
    | false =>
      obtain ⟨rfl, h₁, rfl⟩ := hsame rfl
      obtain ⟨next, hnext, hgen⟩ := bind_eq_ok.mp hgen
      have hstep : addDays date ((rule.ending bound skip).interval * 7) = .ok next := hnext
      show ∃ out, (addDays date ((rule.ending bound skip).interval * 7) >>= _) = Except.ok out
      rw [hstep]
      show ∃ out, (if (acc₁.cut upper).upper < next then Except.ok (acc₁.cut upper) else _) = Except.ok out
      by_cases hpast : upper < next
      · exact ⟨_, if_pos hpast⟩
      · have hcut : ¬(acc₁.cut upper).upper < next := hpast
        have hlater : ¬acc₁.upper < next := fun hlt => hpast (lt_of_le_of_lt h₁.upper hlt)
        rw [if_neg hcut]
        rw [if_neg hlater] at hgen
        exact ih (by omega) h₁ hgen

variable {year : Int} {month : Nat} {months : List Nat}

theorem generateMonthly_cut (hle : rounds' ≤ rounds) (h : Endless upper acc)
    (hgen : generateMonthly rule rounds acc year month = .ok acc') :
    ∃ out, generateMonthly (rule.ending bound skip) rounds' (acc.cut upper) year month = .ok out := by
  induction rounds' generalizing rounds acc year month with
  | zero => exact ⟨_, rfl⟩
  | succ rounds' ih =>
    obtain ⟨rounds, rfl⟩ : ∃ n, rounds = n + 1 := ⟨rounds - 1, by omega⟩
    unfold generateMonthly at hgen ⊢
    obtain ⟨first, hfirst, hgen⟩ := bind_eq_ok.mp hgen
    rw [hfirst]
    show ∃ out, (if (acc.cut upper).upper < first then Except.ok (acc.cut upper) else _) = Except.ok out
    by_cases hpast : upper < first
    · exact ⟨_, if_pos hpast⟩
    · have hcut : ¬(acc.cut upper).upper < first := hpast
      have hlater : ¬acc.upper < first := fun hlt => hpast (lt_of_le_of_lt h.upper hlt)
      rw [if_neg hcut]
      rw [if_neg hlater] at hgen
      obtain ⟨days, hdays, hgen⟩ := bind_eq_ok.mp hgen
      obtain ⟨⟨stop, acc₁⟩, hemit, hgen⟩ := bind_eq_ok.mp hgen
      obtain ⟨rfl, h₁, hemit'⟩ := emitAll_cut h hemit
      obtain ⟨⟨year', month'⟩, hnext, hgen⟩ := bind_eq_ok.mp hgen
      have hdays' : daysInMonth year month (rule.ending bound skip) (acc.cut upper).start = .ok days := hdays
      have hnext' : orOutOfRange (addMonths year month (rule.ending bound skip).interval) = .ok (year', month') := hnext
      rw [hdays']
      show ∃ out, ((acc.cut upper).emitAll days >>= _) = Except.ok out
      rw [hemit']
      show ∃ out, (orOutOfRange (addMonths year month (rule.ending bound skip).interval) >>= _) = Except.ok out
      rw [hnext']
      exact ih (by omega) h₁ hgen

theorem emitMonths_cut (h : Endless upper acc) (hemit : emitMonths rule year acc months = .ok (stop, acc')) :
    stop = false ∧ Endless upper acc' ∧
      emitMonths (rule.ending bound skip) year (acc.cut upper) months = .ok (false, acc'.cut upper) := by
  induction months generalizing acc with
  | nil =>
    obtain ⟨rfl, rfl⟩ := Prod.mk.inj (Except.ok.inj hemit)
    exact ⟨rfl, h, rfl⟩
  | cons month months ih =>
    obtain ⟨days, hdays, hemit⟩ := bind_eq_ok.mp hemit
    obtain ⟨⟨stop₁, acc₁⟩, hfirst, hemit⟩ := bind_eq_ok.mp hemit
    obtain ⟨rfl, h₁, hcut⟩ := emitAll_cut h hfirst
    obtain ⟨hstop, h', hrest⟩ := ih h₁ hemit
    have hdays' : daysInMonth year month (rule.ending bound skip) (acc.cut upper).start = .ok days := hdays
    refine ⟨hstop, h', ?_⟩
    unfold emitMonths
    rw [hdays']
    show ((acc.cut upper).emitAll days >>= _) = _
    rw [hcut]
    exact hrest

theorem generateYearly_cut (hle : rounds' ≤ rounds) (h : Endless upper acc)
    (hgen : generateYearly rule months rounds acc year = .ok acc') :
    ∃ out, generateYearly (rule.ending bound skip) months rounds' (acc.cut upper) year = .ok out := by
  induction rounds' generalizing rounds acc year with
  | zero => exact ⟨_, rfl⟩
  | succ rounds' ih =>
    obtain ⟨rounds, rfl⟩ : ∃ n, rounds = n + 1 := ⟨rounds - 1, by omega⟩
    unfold generateYearly at hgen ⊢
    obtain ⟨first, hfirst, hgen⟩ := bind_eq_ok.mp hgen
    rw [hfirst]
    show ∃ out, (if (acc.cut upper).upper < first then Except.ok (acc.cut upper) else _) = Except.ok out
    by_cases hpast : upper < first
    · exact ⟨_, if_pos hpast⟩
    · have hcut : ¬(acc.cut upper).upper < first := hpast
      have hlater : ¬acc.upper < first := fun hlt => hpast (lt_of_le_of_lt h.upper hlt)
      rw [if_neg hcut]
      rw [if_neg hlater] at hgen
      obtain ⟨⟨stop, acc₁⟩, hemit, hgen⟩ := bind_eq_ok.mp hgen
      obtain ⟨rfl, h₁, hemit'⟩ := emitMonths_cut h hemit
      obtain ⟨year', hnext, hgen⟩ := bind_eq_ok.mp hgen
      have hnext' : orOutOfRange (addYears year (rule.ending bound skip).interval) = .ok year' := hnext
      show ∃ out, (emitMonths (rule.ending bound skip) year (acc.cut upper) months >>= _) = Except.ok out
      rw [hemit']
      show ∃ out, (orOutOfRange (addYears year (rule.ending bound skip).interval) >>= _) = Except.ok out
      rw [hnext']
      exact ih (by omega) h₁ hgen

theorem generate_cut (h : Endless upper acc) (hgen : generate rule acc = .ok acc') :
    ∃ out, generate (rule.ending bound skip) (acc.cut upper) = .ok out := by
  have hrounds : roundsTo (acc.cut upper) ≤ roundsTo acc := by
    have hle : upper.number ≤ acc.upper.number := h.upper
    show (upper.number - acc.start.number).toNat + 366 ≤ (acc.upper.number - acc.start.number).toNat + 366
    omega
  unfold generate at hgen ⊢
  have hfrequency : (rule.ending bound skip).frequency = rule.frequency := rfl
  rw [hfrequency]
  cases hfreq : rule.frequency with
  | daily =>
    rw [hfreq] at hgen
    exact generateDaily_cut hrounds h hgen
  | weekly =>
    rw [hfreq] at hgen
    obtain ⟨anchor, hanchor, hgen⟩ := bind_eq_ok.mp hgen
    have hanchor' : firstAnchor (rule.ending bound skip) (acc.cut upper).start = .ok anchor := hanchor
    dsimp only
    rw [hanchor']
    exact generateWeekly_cut hrounds h hgen
  | monthly =>
    rw [hfreq] at hgen
    exact generateMonthly_cut hrounds h hgen
  | yearly =>
    rw [hfreq] at hgen
    dsimp only at hgen ⊢
    have hinterval : (rule.ending bound skip).interval = rule.interval := rfl
    rw [hinterval]
    by_cases hsmall : rule.interval < 2 ^ 15
    · rw [if_pos hsmall] at hgen ⊢
      exact generateYearly_cut hrounds h hgen
    · rw [if_neg hsmall] at hgen
      exact nomatch hgen
  | hourly => exact ⟨_, rfl⟩
  | minutely => exact ⟨_, rfl⟩
  | secondly => exact ⟨_, rfl⟩

end Generators

theorem occurrenceDates_until_ok {start windowEnd : Date} {cap : Nat} {dates : List Date} {skip' : RecurrenceSkip}
    (t : LocalDateTime) (h : occurrenceDates start (rule.ending .unbounded skip) windowEnd cap = .ok dates) :
    ∃ dates', occurrenceDates start (rule.ending (.untilTime t) skip') windowEnd cap = .ok dates' := by
  unfold occurrenceDates at h ⊢
  obtain ⟨⟨⟩, hsupported, h⟩ := bind_eq_ok.mp h
  obtain ⟨months, hmonths, h⟩ := bind_eq_ok.mp h
  obtain ⟨⟨stop, acc⟩, hemit, h⟩ := bind_eq_ok.mp h
  have hsupported' : checkSupported (rule.ending (.untilTime t) skip') = .ok () := hsupported
  have hmonths' : parseByMonth (rule.ending (.untilTime t) skip').byMonth = .ok months := hmonths
  have hend : Endless (min t.date windowEnd) ⟨[], start, windowEnd, months, none, cap⟩ := ⟨rfl, min_le_right _ _⟩
  obtain ⟨rfl, hend', hemit'⟩ := emit_cut hend hemit
  obtain ⟨acc', hgen, -⟩ := bind_eq_ok.mp h
  have hgen' : generate (rule.ending .unbounded skip) acc = .ok acc' := hgen
  have hcut : ∃ out, generate ((rule.ending .unbounded skip).ending (.untilTime t) skip')
      (acc.cut (min t.date windowEnd)) = .ok out := generate_cut hend' hgen'
  have hends : (rule.ending .unbounded skip).ending (.untilTime t) skip' = rule.ending (.untilTime t) skip' := rfl
  rw [hends] at hcut
  obtain ⟨out, hout⟩ := hcut
  rw [hsupported']
  show ∃ dates', (parseByMonth (rule.ending (.untilTime t) skip').byMonth >>= _) = Except.ok dates'
  rw [hmonths']
  show ∃ dates', ((Acc.cut ⟨[], start, windowEnd, months, none, cap⟩ (min t.date windowEnd)).emit start >>= _) =
    Except.ok dates'
  rw [hemit']
  show ∃ dates', (generate (rule.ending (.untilTime t) skip') (acc.cut (min t.date windowEnd)) >>= _) = Except.ok dates'
  rw [hout]
  exact ⟨_, rfl⟩

end Recurrence
end SyncEngine
