import SyncEngine.Library.Fallible
import SyncEngine.Library.FirstOf
import SyncEngine.Recurrence.Rule

/-!
# Collecting dates in order

A generator emits the candidates of one stretch of days after another.  `Upto C acc b` says that what is
collected are the dates due before the day `b`: the start, and the candidates.  Emitting the candidates of
the next stretch moves `b` to its end, and once `COUNT` is reached or the bound is passed, what is collected
are the first dates due.
-/

namespace SyncEngine
namespace Recurrence

variable {C : Date → Prop} {acc acc' : Acc} {d : Date} {b b' : Int} {stop : Bool}

def Due (C : Date → Prop) (acc : Acc) (d : Date) : Prop := (d = acc.start ∨ C d) ∧ acc.admits d = true

structure Upto (C : Date → Prop) (acc : Acc) (b : Int) : Prop where
  sorted : acc.out.Pairwise (· < ·)
  mem : ∀ d, d ∈ acc.out ↔ Due C acc d ∧ (d = acc.start ∨ d.number < b)
  room : ∀ c, acc.count = some c → acc.out.length < c

def Acc.with (acc : Acc) (out : List Date) : Acc := { acc with out := out }

theorem Acc.admits_iff : acc.admits d = true ↔
    acc.start ≤ d ∧ d ≤ acc.upper ∧ acc.byMonth.all (·.contains d.month) = true := by
  simp only [Acc.admits, Bool.and_eq_true, decide_eq_true_eq, and_assoc]

theorem emit_cases (h : acc.emit d = .ok (stop, acc')) : (acc.admits d = false ∧ stop = false ∧ acc' = acc) ∨
    (acc.admits d = true ∧ d ∈ acc.out ∧ stop = acc.full ∧ acc' = acc) ∨
    (acc.admits d = true ∧ d ∉ acc.out ∧ acc' = acc.with (acc.out ++ [d]) ∧ stop = acc'.full) := by
  unfold Acc.emit at h
  by_cases hadmits : acc.admits d = true
  · rw [hadmits] at h
    by_cases hmem : d ∈ acc.out
    · rw [if_neg (by simp), if_pos hmem] at h
      obtain ⟨rfl, rfl⟩ := Prod.mk.inj (Except.ok.inj h)
      exact .inr (.inl ⟨hadmits, hmem, rfl, rfl⟩)
    · rw [if_neg (by simp), if_neg hmem] at h
      dsimp only at h
      split at h
      · exact nomatch h
      · obtain ⟨rfl, rfl⟩ := Prod.mk.inj (Except.ok.inj h)
        exact .inr (.inr ⟨hadmits, hmem, rfl, rfl⟩)
  · rw [Bool.not_eq_true] at hadmits
    rw [hadmits] at h
    rw [if_pos (by rfl)] at h
    obtain ⟨rfl, rfl⟩ := Prod.mk.inj (Except.ok.inj h)
    exact .inl ⟨hadmits, rfl, rfl⟩

theorem full_eq_false_of_room (h : ∀ c, acc.count = some c → acc.out.length < c) : acc.full = false := by
  unfold Acc.full
  cases hcount : acc.count with
  | none => rfl
  | some c =>
    have hlt := h c hcount
    simp [hlt]

/-! ## One date -/

/-- No candidate lies between two days. -/
def NoneIn (C : Date → Prop) (b b' : Int) : Prop := ∀ e, C e → b ≤ e.number → ¬e.number < b'

theorem Upto.skip (h : Upto C acc b) (hnone : NoneIn C b b') (hle : b ≤ b') : Upto C acc b' := by
  refine ⟨h.sorted, ?_, h.room⟩
  intro e
  rw [h.mem]
  constructor
  · rintro ⟨hdue, rfl | hlt⟩
    · exact ⟨hdue, .inl rfl⟩
    · exact ⟨hdue, .inr (by omega)⟩
  · rintro ⟨hdue, rfl | hlt⟩
    · exact ⟨hdue, .inl rfl⟩
    · refine ⟨hdue, ?_⟩
      rcases hdue.1 with hstart | hC
      · exact .inl hstart
      · right
        by_contra hge
        exact hnone e hC (by omega) hlt

theorem Upto.finish (h : Upto C acc b) (hpast : ∀ e, C e → b ≤ e.number → ¬e ≤ acc.upper) :
    FirstOf acc.count (Due C acc) acc.out := by
  refine ⟨h.sorted, fun a ha => ((h.mem a).mp ha).1, ?_, ?_⟩
  · intro c hc
    exact le_of_lt (h.room c hc)
  · intro a hdue hnot
    refine absurd ((h.mem a).mpr ⟨hdue, ?_⟩) hnot
    rcases hdue.1 with hstart | hC
    · exact .inl hstart
    · right
      by_contra hge
      exact hpast a hC (by omega) (Acc.admits_iff.mp hdue.2).2.1

theorem Upto.finish_of_lt (h : Upto C acc b) (hlt : acc.upper.number < b) :
    FirstOf acc.count (Due C acc) acc.out := by
  refine h.finish ?_
  intro e _ hlate hle
  have hle' : e.number ≤ acc.upper.number := hle
  omega

/-- What stays the same while dates are collected. -/
structure SameBounds (acc acc' : Acc) : Prop where
  start : acc'.start = acc.start
  upper : acc'.upper = acc.upper
  byMonth : acc'.byMonth = acc.byMonth
  count : acc'.count = acc.count

theorem SameBounds.refl (acc : Acc) : SameBounds acc acc := ⟨rfl, rfl, rfl, rfl⟩

theorem SameBounds.trans {acc'' : Acc} (h : SameBounds acc acc') (h' : SameBounds acc' acc'') : SameBounds acc acc'' :=
  ⟨h'.start.trans h.start, h'.upper.trans h.upper, h'.byMonth.trans h.byMonth, h'.count.trans h.count⟩

theorem SameBounds.due (h : SameBounds acc acc') : Due C acc' = Due C acc := by
  funext d
  unfold Due Acc.admits
  rw [h.start, h.upper, h.byMonth]

/-- How collecting goes on: up to the next day, or it is over. -/
structure Goes (C : Date → Prop) (acc : Acc) (b' : Int) (stop : Bool) (acc' : Acc) : Prop where
  same : SameBounds acc acc'
  goesOn : stop = false → Upto C acc' b'
  isOver : stop = true → FirstOf acc.count (Due C acc) acc'.out

theorem Goes.over (h : Goes C acc b' true acc') : FirstOf acc.count (Due C acc) acc'.out := h.isOver rfl

theorem Goes.stopped (h : Goes C acc b true acc') : Goes C acc b' true acc' :=
  ⟨h.same, (fun he => nomatch he), h.isOver⟩

theorem Goes.trans {acc'' : Acc} (h : Goes C acc b false acc') (h' : Goes C acc' b' stop acc'') :
    Goes C acc b' stop acc'' := by
  refine ⟨h.same.trans h'.same, h'.goesOn, ?_⟩
  rw [← h.same.due, ← h.same.count]
  exact h'.isOver

theorem Upto.emit (h : Upto C acc b) (hC : C d) (hb : b ≤ d.number) (hnone : NoneIn C b d.number)
    (hemit : acc.emit d = .ok (stop, acc')) : Goes C acc (d.number + 1) stop acc' := by
  have hat : ∀ e, C e → b ≤ e.number → e.number < d.number + 1 → e = d := by
    intro e he hbe hlt
    refine Date.number_injective ?_
    have hnot := hnone e he hbe
    omega
  have hwas : ∀ e, Due C acc e → e ≠ d → e = acc.start ∨ e.number < d.number + 1 → e = acc.start ∨ e.number < b := by
    intro e hdue hne hor
    rcases hor with hstart | hlt
    · exact .inl hstart
    · rcases hdue.1 with hstart | hCe
      · exact .inl hstart
      · right
        by_contra hge
        exact hne (hat e hCe (by omega) hlt)
  have hstays : (acc.admits d = true → d ∈ acc.out) → Upto C acc (d.number + 1) := by
    intro hin
    refine ⟨h.sorted, ?_, h.room⟩
    intro e
    constructor
    · intro he
      obtain ⟨hdue, hor⟩ := (h.mem e).mp he
      exact ⟨hdue, hor.imp_right fun hlt => by omega⟩
    · rintro ⟨hdue, hor⟩
      by_cases hne : e = d
      · rw [hne] at hdue ⊢
        exact hin hdue.2
      · exact (h.mem e).mpr ⟨hdue, hwas e hdue hne hor⟩
  rcases emit_cases hemit with ⟨hadmits, rfl, rfl⟩ | ⟨hadmits, hmem, rfl, rfl⟩ | ⟨hadmits, hnot, rfl, rfl⟩
  · refine ⟨.refl _, fun _ => hstays ?_, fun he => nomatch he⟩
    rw [hadmits]
    exact fun he => nomatch he
  · refine ⟨.refl _, fun _ => hstays fun _ => hmem, ?_⟩
    rw [full_eq_false_of_room h.room]
    exact fun he => nomatch he
  · have hstartIn : acc.admits acc.start = true → acc.start ∈ acc.out :=
      fun ha => (h.mem _).mpr ⟨⟨.inl rfl, ha⟩, .inl rfl⟩
    have hnotStart : d ≠ acc.start := by
      rintro rfl
      exact hnot (hstartIn hadmits)
    have hbefore : ∀ e ∈ acc.out, e < d := by
      intro e he
      obtain ⟨hdue, hstart | hlt⟩ := (h.mem e).mp he
      · rw [hstart]
        exact lt_of_le_of_ne (Acc.admits_iff.mp hadmits).1 (Ne.symm hnotStart)
      · have hlt' : e.number < d.number := by omega
        exact hlt'
    have hsorted : (acc.out ++ [d]).Pairwise (· < ·) := by
      rw [List.pairwise_append]
      refine ⟨h.sorted, List.pairwise_singleton _ _, ?_⟩
      intro e he f hf
      rw [List.mem_singleton.mp hf]
      exact hbefore e he
    have hmem : ∀ e, e ∈ acc.out ++ [d] ↔ Due C acc e ∧ (e = acc.start ∨ e.number < d.number + 1) := by
      intro e
      rw [List.mem_append, List.mem_singleton]
      constructor
      · rintro (he | rfl)
        · obtain ⟨hdue, hor⟩ := (h.mem e).mp he
          exact ⟨hdue, hor.imp_right fun hlt => by omega⟩
        · exact ⟨⟨.inr hC, hadmits⟩, .inr (by omega)⟩
      · rintro ⟨hdue, hor⟩
        by_cases hne : e = d
        · exact .inr hne
        · exact .inl ((h.mem e).mpr ⟨hdue, hwas e hdue hne hor⟩)
    refine ⟨⟨rfl, rfl, rfl, rfl⟩, ?_, ?_⟩
    · intro hroom
      refine ⟨hsorted, hmem, ?_⟩
      intro c hc
      have hfull : (acc.with (acc.out ++ [d])).full = false := hroom
      unfold Acc.full at hfull
      rw [hc] at hfull
      have hnotle : ¬c ≤ (acc.out ++ [d]).length := of_decide_eq_false hfull
      exact Nat.lt_of_not_le hnotle
    · intro hfull
      obtain ⟨c, hc, hle⟩ : ∃ c, acc.count = some c ∧ c ≤ (acc.out ++ [d]).length := by
        have hany : acc.count.any (fun c => decide (c ≤ (acc.out ++ [d]).length)) = true := hfull
        cases hcount : acc.count with
        | none =>
          rw [hcount] at hany
          exact nomatch hany
        | some c =>
          rw [hcount] at hany
          exact ⟨c, rfl, of_decide_eq_true hany⟩
      have hlength : (acc.out ++ [d]).length = c := by
        have hroom := h.room c hc
        rw [List.length_append, List.length_singleton] at hle ⊢
        omega
      refine ⟨hsorted, fun e he => ((hmem e).mp he).1, ?_, ?_⟩
      · intro c' hc'
        rw [hc] at hc'
        rw [← Option.some.inj hc']
        exact le_of_eq hlength
      · intro a hdue hnot'
        refine ⟨hc.trans (congrArg some hlength.symm), ?_⟩
        have hlate : a ≠ acc.start ∧ ¬a.number < d.number + 1 := by
          constructor
          · intro hstart
            exact hnot' ((hmem a).mpr ⟨hdue, .inl hstart⟩)
          · intro hlt
            exact hnot' ((hmem a).mpr ⟨hdue, .inr hlt⟩)
        intro e he
        obtain ⟨-, hstart | hlt⟩ := (hmem e).mp he
        · rw [hstart]
          exact lt_of_le_of_ne (Acc.admits_iff.mp hdue.2).1 (Ne.symm hlate.1)
        · have hlt' : e.number < a.number := by omega
          exact hlt'

/-! ## A stretch of days -/

/-- The candidates of the days from `b` to `b'`, in order. -/
structure Covers (C : Date → Prop) (b b' : Int) (ds : List Date) : Prop where
  sorted : ds.Pairwise (· < ·)
  mem : ∀ d, d ∈ ds ↔ C d ∧ b ≤ d.number ∧ d.number < b'

variable {ds : List Date}

theorem Covers.noneBefore (h : Covers C b b' (d :: ds)) : NoneIn C b d.number := by
  intro e he hb hlt
  have hd := (h.mem d).mp List.mem_cons_self
  have hmem := (h.mem e).mpr ⟨he, hb, by omega⟩
  rcases List.mem_cons.mp hmem with rfl | hmem
  · omega
  · have hgt : d < e := List.rel_of_pairwise_cons h.sorted hmem
    exact absurd hgt (not_lt_of_gt hlt)

theorem Covers.tail (h : Covers C b b' (d :: ds)) : Covers C (d.number + 1) b' ds := by
  have hd := (h.mem d).mp List.mem_cons_self
  refine ⟨h.sorted.of_cons, ?_⟩
  intro e
  constructor
  · intro he
    obtain ⟨hC, hb, hlt⟩ := (h.mem e).mp (List.mem_cons_of_mem d he)
    have hgt : d.number < e.number := List.rel_of_pairwise_cons h.sorted he
    exact ⟨hC, by omega, hlt⟩
  · rintro ⟨hC, hb, hlt⟩
    rcases List.mem_cons.mp ((h.mem e).mpr ⟨hC, by omega, hlt⟩) with rfl | he
    · omega
    · exact he

theorem Covers.noneIn (h : Covers C b b' []) : NoneIn C b b' := by
  intro e he hb hlt
  exact absurd ((h.mem e).mpr ⟨he, hb, hlt⟩) List.not_mem_nil

theorem Upto.emitAll (h : Upto C acc b) (hcovers : Covers C b b' ds) (hle : b ≤ b')
    (hemit : acc.emitAll ds = .ok (stop, acc')) : Goes C acc b' stop acc' := by
  induction ds generalizing acc b with
  | nil =>
    obtain ⟨rfl, rfl⟩ := Prod.mk.inj (Except.ok.inj hemit)
    exact ⟨.refl _, fun _ => h.skip hcovers.noneIn hle, fun he => nomatch he⟩
  | cons d ds ih =>
    obtain ⟨⟨stop₁, acc₁⟩, hone, hrest⟩ := Fallible.bind_eq_ok.mp hemit
    have hd := (hcovers.mem d).mp List.mem_cons_self
    have hgoes := h.emit hd.1 hd.2.1 hcovers.noneBefore hone
    cases stop₁ with
    | true =>
      obtain ⟨rfl, rfl⟩ := Prod.mk.inj (Except.ok.inj hrest)
      exact hgoes.stopped
    | false => exact hgoes.trans (ih (hgoes.goesOn rfl) hcovers.tail (by omega) hrest)

end Recurrence

namespace Recurrence

/-!
## The days a rule selects in a month

What the parts of a rule say about a date, and that the dates listed for a month are those of the month the
parts select.
-/

open Civil Fallible

/-! ## What the parts say -/

def NDay.Names (nd : NDay) (d : Date) : Prop :=
  d.weekday = nd.day ∧ ∀ nth, nd.nthOfPeriod = some nth →
    (0 < nth → ((d.day : Int) - 1) / 7 + 1 = nth) ∧
    (nth < 0 → ((d.daysInMonth : Int) - d.day) / 7 + 1 = -nth)

def ByDay (rule : RecurrenceRule) (d : Date) : Prop := ∃ nd ∈ rule.byDay, nd.Names d

def ByMonthDay (rule : RecurrenceRule) (d : Date) : Prop :=
  ∃ md ∈ rule.byMonthDay, (0 < md ∧ (d.day : Int) = md) ∨ (md < 0 ∧ (d.day : Int) = d.daysInMonth + md + 1)

def ByParts (rule : RecurrenceRule) (d : Date) : Prop :=
  (rule.byDay ≠ [] → ByDay rule d) ∧ (rule.byMonthDay ≠ [] → ByMonthDay rule d)

def MonthSelected (rule : RecurrenceRule) (start d : Date) : Prop :=
  ByParts rule d ∧ (rule.byDay = [] → rule.byMonthDay = [] → d.day = start.day)

/-- The months `BYMONTH` names. -/
def InMonths (rule : RecurrenceRule) (d : Date) : Prop :=
  rule.byMonth ≠ [] → ∃ entry ∈ rule.byMonth, parseMonth entry = .ok d.month

variable {d : Date}

theorem monthDay_eq_day_iff {md : Int} : monthDay md d.daysInMonth = (d.day : Int) ↔
    (0 < md ∧ (d.day : Int) = md) ∨ (md < 0 ∧ (d.day : Int) = d.daysInMonth + md + 1) := by
  have hday := d.isDate.2.2.1
  unfold monthDay
  split_ifs <;> omega

variable {rule : RecurrenceRule}

theorem dailyMatches_iff (hplain : ∀ nd ∈ rule.byDay, nd.nthOfPeriod = none) : dailyMatches d rule = true ↔ ByParts rule d := by
  have hdays : (rule.byDay.isEmpty = true ∨ (rule.byDay.any fun nd => nd.day == d.weekday) = true) ↔
      (rule.byDay ≠ [] → ByDay rule d) := by
    rw [List.isEmpty_iff, List.any_eq_true]
    constructor
    · rintro (hnil | ⟨nd, hnd, heq⟩) hne
      · exact absurd hnil hne
      · refine ⟨nd, hnd, (beq_iff_eq.mp heq).symm, ?_⟩
        intro nth hnth
        rw [hplain nd hnd] at hnth
        exact nomatch hnth
    · intro h
      by_cases hnil : rule.byDay = []
      · exact .inl hnil
      · obtain ⟨nd, hnd, hnames⟩ := h hnil
        exact .inr ⟨nd, hnd, beq_iff_eq.mpr hnames.1.symm⟩
  have hmonthDays : (rule.byMonthDay.isEmpty = true ∨
      (rule.byMonthDay.any fun md => monthDay md d.daysInMonth == (d.day : Int)) = true) ↔
      (rule.byMonthDay ≠ [] → ByMonthDay rule d) := by
    rw [List.isEmpty_iff, List.any_eq_true]
    constructor
    · rintro (hnil | ⟨md, hmd, heq⟩) hne
      · exact absurd hnil hne
      · exact ⟨md, hmd, monthDay_eq_day_iff.mp (beq_iff_eq.mp heq)⟩
    · intro h
      by_cases hnil : rule.byMonthDay = []
      · exact .inl hnil
      · obtain ⟨md, hmd, hnames⟩ := h hnil
        exact .inr ⟨md, hmd, beq_iff_eq.mpr (monthDay_eq_day_iff.mpr hnames)⟩
  unfold dailyMatches ByParts
  rw [Bool.and_eq_true, Bool.or_eq_true, Bool.or_eq_true, hdays, hmonthDays]

/-! ## The dates of one month -/

variable {year : Int} {month : Nat}

theorem ymd_eq_ok_iff {day : Nat} : ymd year month day = .ok d ↔ d.year = year ∧ d.month = month ∧ d.day = day := by
  rw [← Date.new?_eq_some_iff]
  unfold ymd
  cases Date.new? year month day with
  | none => simp [orOutOfRange]
  | some e => simp [orOutOfRange]

theorem addDays_eq_ok_iff {e : Date} {days : Int} : addDays d days = .ok e ↔ e.number = d.number + days := by
  rw [← Date.addDays?_eq_some_iff]
  unfold addDays
  cases d.addDays? days with
  | none => simp [orOutOfRange]
  | some e => simp [orOutOfRange]

section Month

variable {year : Int} {month : Nat} {d first : Date} {ds : List Date}

theorem daysInMonth_of (hfirst : ymd year month 1 = .ok first) (hy : d.year = year) (hm : d.month = month) :
    first.daysInMonth = d.daysInMonth := by
  obtain ⟨hyear, hmonth, -⟩ := ymd_eq_ok_iff.mp hfirst
  unfold Date.daysInMonth
  rw [hyear, hmonth, hy, hm]

theorem mem_monthDayDates {byMonthDay : List Int} (h : monthDayDates year month byMonthDay = .ok ds) :
    d ∈ ds ↔ d.year = year ∧ d.month = month ∧ ∃ md ∈ byMonthDay, monthDay md d.daysInMonth = (d.day : Int) := by
  obtain ⟨first, hfirst, h⟩ := bind_eq_ok.mp h
  rw [mem_mapM h]
  constructor
  · rintro ⟨day, hday, hd⟩
    obtain ⟨hyear, hmonth, hdayEq⟩ := ymd_eq_ok_iff.mp hd
    obtain ⟨hmem, hrange⟩ := List.mem_filter.mp hday
    obtain ⟨md, hmd, rfl⟩ := List.mem_map.mp hmem
    refine ⟨hyear, hmonth, md, hmd, ?_⟩
    rw [← daysInMonth_of hfirst hyear hmonth]
    simp only [Bool.and_eq_true, decide_eq_true_eq] at hrange
    omega
  · rintro ⟨hyear, hmonth, md, hmd, heq⟩
    have hbounds := d.isDate
    refine ⟨(d.day : Int), List.mem_filter.mpr ⟨List.mem_map.mpr ⟨md, hmd, ?_⟩, ?_⟩, ?_⟩
    · rw [daysInMonth_of hfirst hyear hmonth, heq]
    · have hlength := daysInMonth_of hfirst hyear hmonth
      have hday : d.day ≤ d.daysInMonth := hbounds.2.2.2
      have hpos := hbounds.2.2.1
      simp only [Bool.and_eq_true, decide_eq_true_eq]
      omega
    · rw [ymd_eq_ok_iff]
      exact ⟨hyear, hmonth, by omega⟩

theorem number_of_first (hfirst : ymd year month 1 = .ok first) (hy : d.year = year) (hm : d.month = month) :
    d.number = dayNumber first.year first.month 1 + (d.day - 1) := by
  obtain ⟨hyear, hmonth, -⟩ := ymd_eq_ok_iff.mp hfirst
  unfold Date.number dayNumber
  rw [hyear, hmonth, hy, hm]
  omega

theorem mem_nthWeekday {nth : Int} (hnth : nth ≠ 0) {weekday : Weekday} (hfirst : ymd year month 1 = .ok first) :
    d ∈ (first.nthWeekdayOfMonth? nth weekday).toList ↔ d.year = year ∧ d.month = month ∧
      d.weekday = weekday ∧ (0 < nth → ((d.day : Int) - 1) / 7 + 1 = nth) ∧
      (nth < 0 → ((d.daysInMonth : Int) - d.day) / 7 + 1 = -nth) := by
  obtain ⟨hyear, hmonth, -⟩ := ymd_eq_ok_iff.mp hfirst
  have hoffset := weekday.offset_lt
  have hlast : dayNumber first.year first.month first.daysInMonth =
      dayNumber first.year first.month 1 + (first.daysInMonth - 1) := by
    unfold dayNumber
    omega
  rw [Option.mem_toList]
  unfold Date.nthWeekdayOfMonth?
  dsimp only
  rw [hlast]
  by_cases hpos : 0 < nth
  · rw [if_pos hpos, Date.new?_eq_some_iff, hyear, hmonth]
    constructor
    · rintro ⟨hy, hm, hd⟩
      have hnumber := number_of_first hfirst hy hm
      rw [hyear, hmonth] at hnumber
      refine ⟨hy, hm, ?_, fun _ => ?_, fun hneg => by omega⟩
      · rw [Date.weekday_eq_iff]
        omega
      · omega
    · rintro ⟨hy, hm, hweekday, hindex, -⟩
      have hnumber := number_of_first hfirst hy hm
      rw [hyear, hmonth] at hnumber
      have hbounds := d.isDate.2.2.1
      have hindex' := hindex hpos
      rw [Date.weekday_eq_iff] at hweekday
      exact ⟨hy, hm, by omega⟩
  · rw [if_neg hpos]
    have hneg : nth < 0 := by omega
    constructor
    · intro h
      split at h
      · rename_i hcond
        simp only [Bool.and_eq_true, decide_eq_true_eq] at hcond
        rw [Date.new?_eq_some_iff, hyear, hmonth] at h
        obtain ⟨hy, hm, hd⟩ := h
        have hnumber := number_of_first hfirst hy hm
        have hlength := daysInMonth_of hfirst hy hm
        rw [hyear, hmonth] at hnumber hcond
        refine ⟨hy, hm, ?_, fun hpos => by omega, fun _ => ?_⟩
        · rw [Date.weekday_eq_iff]
          omega
        · omega
      · exact nomatch h
    · rintro ⟨hy, hm, hweekday, -, hindex⟩
      have hnumber := number_of_first hfirst hy hm
      have hlength := daysInMonth_of hfirst hy hm
      have hbounds := d.isDate
      have hday : d.day ≤ d.daysInMonth := hbounds.2.2.2
      have hfrom := hbounds.2.2.1
      have hindex' := hindex hneg
      rw [Date.weekday_eq_iff] at hweekday
      rw [hyear, hmonth] at hnumber
      rw [hyear, hmonth]
      have hcond : 0 < (first.daysInMonth : Int) -
          (dayNumber year month 1 + ((first.daysInMonth : Int) - 1) + 5 - weekday.offset) % 7 -
          7 * (-nth - 1) := by omega
      rw [if_pos (by simp only [Bool.and_eq_true, decide_eq_true_eq]; exact ⟨hneg, hcond⟩), Date.new?_eq_some_iff]
      exact ⟨hy, hm, by omega⟩

theorem mem_ndayDates {nd : NDay} (hfirst : ymd year month 1 = .ok first)
    (h : ndayDates first nd = .ok ds) : d ∈ ds ↔ d.year = year ∧ d.month = month ∧ nd.Names d := by
  obtain ⟨hyear, hmonth, -⟩ := ymd_eq_ok_iff.mp hfirst
  unfold ndayDates at h
  unfold NDay.Names
  cases hnth : nd.nthOfPeriod with
  | some nth =>
    rw [hnth] at h
    dsimp only at h
    split at h
    · obtain rfl := Except.ok.inj h
      have hne : nth ≠ 0 := by
        rintro rfl
        exact nd.nonzero hnth
      rw [mem_nthWeekday hne hfirst]
      constructor
      · rintro ⟨hy, hm, hweekday, hindex⟩
        refine ⟨hy, hm, hweekday, ?_⟩
        intro nth' he
        rw [← Option.some.inj he]
        exact hindex
      · rintro ⟨hy, hm, hweekday, hindex⟩
        exact ⟨hy, hm, hweekday, hindex nth rfl⟩
    · exact nomatch h
  | none =>
    rw [hnth] at h
    dsimp only at h
    obtain ⟨days, hdays, h⟩ := bind_eq_ok.mp h
    obtain rfl := Except.ok.inj h
    rw [List.mem_filter, mem_mapM hdays, beq_iff_eq]
    constructor
    · rintro ⟨⟨day, -, hd⟩, hweekday⟩
      obtain ⟨hy, hm, -⟩ := ymd_eq_ok_iff.mp hd
      exact ⟨hy.trans hyear, hm.trans hmonth, hweekday, fun _ he => nomatch he⟩
    · rintro ⟨hy, hm, hweekday, -⟩
      have hbounds := d.isDate
      have hday : d.day ≤ d.daysInMonth := hbounds.2.2.2
      have hpos := hbounds.2.2.1
      refine ⟨⟨d.day, ?_, ?_⟩, hweekday⟩
      · rw [List.mem_range', daysInMonth_of hfirst hy hm]
        exact ⟨d.day - 1, by omega, by omega⟩
      · rw [ymd_eq_ok_iff, hyear, hmonth]
        exact ⟨hy, hm, rfl⟩

theorem mem_weekdayDates {byDay : List NDay} (h : weekdayDates year month byDay = .ok ds) :
    d ∈ ds ↔ d.year = year ∧ d.month = month ∧ ∃ nd ∈ byDay, nd.Names d := by
  obtain ⟨first, hfirst, h⟩ := bind_eq_ok.mp h
  obtain ⟨dates, hdates, h⟩ := bind_eq_ok.mp h
  obtain rfl := Except.ok.inj h
  rw [List.mem_flatten]
  constructor
  · rintro ⟨part, hpart, hd⟩
    obtain ⟨nd, hnd, hone⟩ := (mem_mapM hdates).mp hpart
    obtain ⟨hy, hm, hnames⟩ := (mem_ndayDates hfirst hone).mp hd
    exact ⟨hy, hm, nd, hnd, hnames⟩
  · rintro ⟨hy, hm, nd, hnd, hnames⟩
    obtain ⟨part, hone⟩ := mapM_ok_iff.mp ⟨dates, hdates⟩ nd hnd
    exact ⟨part, (mem_mapM hdates).mpr ⟨nd, hnd, hone⟩, (mem_ndayDates hfirst hone).mpr ⟨hy, hm, hnames⟩⟩

theorem mem_sameDayDates {start : Date} (h : sameDayDates year month start = .ok ds) :
    d ∈ ds ↔ d.year = year ∧ d.month = month ∧ d.day = start.day := by
  obtain ⟨first, hfirst, h⟩ := bind_eq_ok.mp h
  split at h
  · obtain ⟨date, hdate, h⟩ := bind_eq_ok.mp h
    obtain rfl := Except.ok.inj h
    have hparts := ymd_eq_ok_iff.mp hdate
    rw [List.mem_singleton]
    constructor
    · rintro rfl
      exact hparts
    · intro hd
      have hsame := ymd_eq_ok_iff.mpr hd
      rw [hdate] at hsame
      exact (Except.ok.inj hsame).symm
  · rename_i hlong
    obtain rfl := Except.ok.inj h
    refine ⟨fun hd => absurd hd List.not_mem_nil, ?_⟩
    rintro ⟨hy, hm, hd⟩
    have hday : d.day ≤ d.daysInMonth := d.isDate.2.2.2
    rw [daysInMonth_of hfirst hy hm, ← hd] at hlong
    exact absurd hday hlong

end Month

/-! ## Sorted, without repetitions -/

variable {ds : List Date}

theorem mem_sortDedup : d ∈ sortDedup ds ↔ d ∈ ds := by
  unfold sortDedup
  rw [List.mem_dedup, List.mem_insertionSort]

theorem sortDedup_sorted (ds : List Date) : (sortDedup ds).Pairwise (· < ·) := by
  have hsorted : (sortDedup ds).Pairwise (· ≤ ·) :=
    (List.pairwise_insertionSort (· ≤ ·) ds).sublist (List.dedup_sublist _)
  have hnodup : (sortDedup ds).Nodup := List.nodup_dedup _
  exact hsorted.imp₂ (fun _ _ hle hne => lt_of_le_of_ne hle hne) hnodup

theorem daysInMonth_spec {start : Date} (h : daysInMonth year month rule start = .ok ds) : ds.Pairwise (· < ·) ∧
      ∀ d, d ∈ ds ↔ d.year = year ∧ d.month = month ∧ MonthSelected rule start d := by
  obtain ⟨days, hdays, h⟩ := bind_eq_ok.mp h
  obtain rfl := Except.ok.inj h
  unfold namedDates at hdays
  refine ⟨sortDedup_sorted days, ?_⟩
  intro d
  rw [mem_sortDedup]
  have hmd : (∃ md ∈ rule.byMonthDay, monthDay md d.daysInMonth = (d.day : Int)) ↔ ByMonthDay rule d := by
    unfold ByMonthDay
    simp only [monthDay_eq_day_iff]
  unfold MonthSelected ByParts
  by_cases hm : rule.byMonthDay = []
  · rw [if_pos (by rw [hm]; rfl)] at hdays
    by_cases hb : rule.byDay = []
    · rw [if_pos (by rw [hb]; rfl)] at hdays
      rw [mem_sameDayDates hdays]
      simp [hm, hb]
    · rw [if_neg (by rwa [List.isEmpty_iff])] at hdays
      rw [mem_weekdayDates hdays]
      simp [hm, hb, ByDay]
  · rw [if_neg (by rwa [List.isEmpty_iff])] at hdays
    by_cases hb : rule.byDay = []
    · rw [if_pos (by rw [hb]; rfl)] at hdays
      rw [mem_monthDayDates hdays, hmd]
      simp [hm, hb]
    · rw [if_neg (by rwa [List.isEmpty_iff])] at hdays
      obtain ⟨weekdays, hweekdays, hdays⟩ := bind_eq_ok.mp hdays
      obtain ⟨monthDays, hmonthDays, hdays⟩ := bind_eq_ok.mp hdays
      obtain rfl := Except.ok.inj hdays
      rw [List.mem_filter, List.contains_iff_mem, mem_monthDayDates hmonthDays, mem_weekdayDates hweekdays, hmd]
      simp only [hm, hb, ne_eq, not_false_eq_true, forall_const, false_implies, and_true]
      constructor
      · rintro ⟨⟨hy, hmo, hbyMonthDay⟩, -, -, hbyDay⟩
        exact ⟨hy, hmo, hbyDay, hbyMonthDay⟩
      · rintro ⟨hy, hmo, hbyDay, hbyMonthDay⟩
        exact ⟨⟨hy, hmo, hbyMonthDay⟩, hy, hmo, hbyDay⟩

end Recurrence
end SyncEngine
