import Mathlib
import SyncEngine.Recurrence.Excluded
import SyncEngine.Recurrence.Overflow

/-!
# When expanding a rule returns

Every expansion of a rule comes to dates or to an error, but for the monthly rules whose first step is too far, where
that step is taken: the start's month begins by the bound, and its dates leave room for another.
-/

namespace SyncEngine
namespace Recurrence

open Civil

open Clock

open Fallible

/-! ## Room for another date -/

section Room

variable {acc acc' : Acc} {d : Date} {n m : Nat} {stop : Bool}

/-- Whether so many dates are within the cap, and fewer than `COUNT`. -/
def Acc.HasRoom (acc : Acc) (n : Nat) : Prop := n ≤ acc.cap ∧ ∀ c, acc.count = some c → n < c

theorem Acc.HasRoom.mono (h : acc.HasRoom m) (hle : n ≤ m) : acc.HasRoom n :=
  ⟨le_trans hle h.1, fun c hc => lt_of_le_of_lt hle (h.2 c hc)⟩

theorem full_eq_false_iff : acc.full = false ↔ ∀ c, acc.count = some c → acc.out.length < c := by
  refine ⟨?_, full_eq_false_of_room⟩
  intro hfull c hc
  unfold Acc.full at hfull
  rw [hc] at hfull
  exact Nat.lt_of_not_le (of_decide_eq_false hfull)

theorem emit_new (hadmits : acc.admits d = true) (hnew : d ∉ acc.out) :
    (∃ acc', acc.emit d = .ok (false, acc')) ↔ acc.HasRoom (acc.out.length + 1) := by
  have hlength : (acc.with (acc.out ++ [d])).out.length = acc.out.length + 1 := List.length_append
  have hfull := @full_eq_false_iff (acc.with (acc.out ++ [d]))
  rw [hlength] at hfull
  unfold Acc.emit Acc.HasRoom
  rw [hadmits, if_neg (by simp), if_neg hnew]
  show (∃ acc', (if acc.cap < (acc.with (acc.out ++ [d])).out.length then _ else _) = _) ↔ _
  rw [hlength]
  by_cases hcap : acc.cap < acc.out.length + 1
  · rw [if_pos hcap]
    constructor
    · rintro ⟨acc', h⟩
      exact nomatch h
    · intro h
      exact absurd h.1 (Nat.not_le_of_lt hcap)
  · rw [if_neg hcap]
    constructor
    · rintro ⟨acc', h⟩
      exact ⟨by omega, hfull.mp (Prod.mk.inj (Except.ok.inj h)).1⟩
    · intro h
      refine ⟨acc.with (acc.out ++ [d]), ?_⟩
      show Except.ok ((acc.with (acc.out ++ [d])).full, _) = _
      rw [hfull.mpr h.2]
      rfl

theorem emitAll_cons_goesOn {ds : List Date} : (∃ acc', acc.emitAll (d :: ds) = .ok (false, acc')) ↔
    ∃ acc₁, acc.emit d = .ok (false, acc₁) ∧ ∃ acc', acc₁.emitAll ds = .ok (false, acc') := by
  constructor
  · rintro ⟨acc', h⟩
    obtain ⟨⟨stop, acc₁⟩, hemit, h⟩ := bind_eq_ok.mp h
    cases stop with
    | true => exact nomatch (Prod.mk.inj (Except.ok.inj h)).1
    | false => exact ⟨acc₁, hemit, acc', h⟩
  · rintro ⟨acc₁, hemit, acc', h⟩
    exact ⟨acc', bind_eq_ok.mpr ⟨(false, acc₁), hemit, h⟩⟩

theorem emitAll_goesOn_iff {ds : List Date} (hnodup : acc.out.Nodup) (hroom : acc.HasRoom acc.out.length) :
    (∃ acc', acc.emitAll ds = .ok (false, acc')) ↔
      acc.HasRoom (acc.out.toFinset ∪ (ds.filter acc.admits).toFinset).card := by
  induction ds generalizing acc with
  | nil =>
    have hcard : (acc.out.toFinset ∪ ([].filter acc.admits).toFinset).card = acc.out.length := by
      rw [List.filter_nil, List.toFinset_nil, Finset.union_empty, List.toFinset_card_of_nodup hnodup]
    rw [hcard]
    exact ⟨fun _ => hroom, fun _ => ⟨acc, rfl⟩⟩
  | cons d ds ih =>
    rw [emitAll_cons_goesOn]
    by_cases hadmits : acc.admits d = true
    · rw [List.filter_cons_of_pos hadmits, List.toFinset_cons]
      by_cases hmem : d ∈ acc.out
      · have hemit : acc.emit d = .ok (false, acc) := by
          unfold Acc.emit
          rw [hadmits, if_neg (by simp), if_pos hmem, full_eq_false_of_room hroom.2]
        have hunion : acc.out.toFinset ∪ insert d (ds.filter acc.admits).toFinset =
            acc.out.toFinset ∪ (ds.filter acc.admits).toFinset := by
          rw [Finset.union_insert, Finset.insert_eq_of_mem]
          exact Finset.mem_union_left _ (List.mem_toFinset.mpr hmem)
        rw [hunion, ← ih hnodup hroom, hemit]
        constructor
        · rintro ⟨acc₁, h, hrest⟩
          obtain rfl := (Prod.mk.inj (Except.ok.inj h)).2
          exact hrest
        · intro hrest
          exact ⟨acc, rfl, hrest⟩
      · -- a new date is one more of those collected
        have hout : ∀ acc₁, acc.emit d = .ok (false, acc₁) → acc₁ = acc.with (acc.out ++ [d]) := by
          intro acc₁ h
          obtain ⟨hnot, -, -⟩ | ⟨-, hin, -, -⟩ | ⟨-, -, rfl, -⟩ := emit_cases h
          · rw [hadmits] at hnot
            exact nomatch hnot
          · exact absurd hin hmem
          · rfl
        have hnodup' : (acc.with (acc.out ++ [d])).out.Nodup := List.nodup_append.mpr ⟨hnodup, List.nodup_singleton d, by
            intro a ha b hb hab
            rw [List.mem_singleton.mp hb] at hab
            exact hmem (hab ▸ ha)⟩
        have hlength : (acc.with (acc.out ++ [d])).out.length = acc.out.length + 1 := List.length_append
        have hunion : acc.out.toFinset ∪ insert d (ds.filter acc.admits).toFinset =
            (acc.with (acc.out ++ [d])).out.toFinset ∪ (ds.filter (acc.with (acc.out ++ [d])).admits).toFinset := by
          show _ = (acc.out ++ [d]).toFinset ∪ (ds.filter acc.admits).toFinset
          rw [List.toFinset_append, Finset.union_assoc]
          rfl
        have hcard : acc.out.length + 1 ≤ (acc.out.toFinset ∪ insert d (ds.filter acc.admits).toFinset).card := by
          rw [hunion, ← hlength, ← List.toFinset_card_of_nodup hnodup']
          exact Finset.card_le_card Finset.subset_union_left
        constructor
        · rintro ⟨acc₁, hemit, hrest⟩
          have hone := (emit_new hadmits hmem).mp ⟨acc₁, hemit⟩
          obtain rfl := hout acc₁ hemit
          rw [hunion]
          exact (ih hnodup' (hlength ▸ hone)).mp hrest
        · intro hall
          have hone := hall.mono hcard
          obtain ⟨acc₁, hemit⟩ := (emit_new hadmits hmem).mpr hone
          obtain rfl := hout acc₁ hemit
          rw [hunion] at hall
          exact ⟨_, hemit, (ih hnodup' (hlength ▸ hone)).mpr hall⟩
    · have hemit : acc.emit d = .ok (false, acc) := by
        rw [Bool.not_eq_true] at hadmits
        unfold Acc.emit
        rw [hadmits]
        rfl
      rw [List.filter_cons_of_neg hadmits, ← ih hnodup hroom, hemit]
      constructor
      · rintro ⟨acc₁, h, hrest⟩
        obtain rfl := (Prod.mk.inj (Except.ok.inj h)).2
        exact hrest
      · intro hrest
        exact ⟨acc, rfl, hrest⟩

end Room

namespace Checked

variable {rule : RecurrenceRule} {start windowEnd : Date} {cap rounds : Nat}

/-! ## Rules -/

section Rules

variable {acc : Acc}

theorem firstAnchor_of (rule : RecurrenceRule) (start : Date) :
    firstAnchor rule start = of (Recurrence.firstAnchor rule start) := by
  have hoffset : 0 ≤ Recurrence.weekOffset rule.firstDayOfWeek start.weekday ∧
      Recurrence.weekOffset rule.firstDayOfWeek start.weekday < 7 := by
    unfold Recurrence.weekOffset
    omega
  have hback : signed 64 (-Recurrence.weekOffset rule.firstDayOfWeek start.weekday) =
      of (.ok (-Recurrence.weekOffset rule.firstDayOfWeek start.weekday)) := signed_of (by omega) (by omega)
  unfold firstAnchor
  rw [weekOffset_of]
  show (signed 64 (-Recurrence.weekOffset rule.firstDayOfWeek start.weekday) >>= _) = _
  rw [hback]
  exact addDays_of _ _

theorem generate_of (htypes : InTypes rule) (hsupported : Supported rule) (hnear : rule.frequency = .monthly →
      ¬(TooFar acc.start.month rule.interval ∧ MovesOn rule acc acc.start.year acc.start.month))
    (hrounds : roundsTo acc ≤ rounds) : generate rule rounds acc = of (Recurrence.generate rule acc) := by
  have hpos : 0 < roundsTo acc := by unfold roundsTo; omega
  have hspan : acc.upper.number - acc.start.number + 366 ≤ roundsTo acc := by unfold roundsTo; omega
  have hleast : 366 ≤ roundsTo acc := by unfold roundsTo; omega
  unfold generate Recurrence.generate
  rcases hsupported.frequency with hfreq | hfreq | hfreq | hfreq
  · rw [hfreq]
    exact generateDaily_of htypes (by omega) hpos (by omega) (by omega)
  · rw [hfreq]
    refine bind_of (firstAnchor_of rule acc.start) fun anchor hanchor => ?_
    have hnumber : anchor.number = acc.start.number + -Recurrence.weekOffset rule.firstDayOfWeek acc.start.weekday :=
      addDays_eq_ok_iff.mp hanchor
    have hoffset : Recurrence.weekOffset rule.firstDayOfWeek acc.start.weekday < 7 := by
      unfold Recurrence.weekOffset
      omega
    have hinterval := htypes.interval
    have hstep : signed 64 ((rule.interval : Int) * 7) = of (.ok ((rule.interval : Int) * 7)) :=
      signed_of (by omega) (by omega)
    rw [hstep]
    exact generateWeekly_of (by omega) hpos (by omega) (by omega)
  · rw [hfreq]
    have hmonth : 1 ≤ acc.start.month ∧ acc.start.month ≤ 12 := ⟨acc.start.isDate.1, acc.start.isDate.2.1⟩
    have hin : acc.start.number - monthStart acc.start.monthIndex < 31 := by
      obtain ⟨h₁, h₂, h₃, h₄⟩ := acc.start.isDate
      have hfirst : monthStart acc.start.monthIndex = dayNumber acc.start.year acc.start.month 1 := monthStart_of h₁ h₂
      have hlength := daysInMonth_bounds acc.start
      unfold Date.daysInMonth at hlength
      rw [hfirst]
      unfold Date.number dayNumber
      omega
    unfold Date.monthIndex at hin
    exact generateMonthly_of htypes hmonth (hnear hfreq) (by omega) hpos (by omega) (by omega)
  · rw [hfreq]
    have hin := inYear acc.start
    have hlength : yearLength acc.start.year ≤ 366 := by
      unfold yearLength
      split
      · omega
      · omega
    have hsucc := beforeYear_succ acc.start.year
    by_cases hinterval : rule.interval < 2 ^ 15
    · show (if _ then _ else _) = of (if _ then _ else _)
      rw [if_pos hinterval, if_pos hinterval]
      exact generateYearly_of htypes (by omega) hpos (by omega) (by omega)
    · show (if _ then _ else _) = of (if _ then _ else _)
      rw [if_neg hinterval, if_neg hinterval]

/-- A monthly rule with a first step that is too far, and that is taken: the start's month has begun by the bound, and
its dates, with the start, are within the cap and fewer than `COUNT`. -/
structure StepsPast (start : Date) (rule : RecurrenceRule) (windowEnd : Date) (cap : Nat) : Prop where
  supported : Supported rule
  monthly : rule.frequency = .monthly
  tooFar : TooFar start.month rule.interval
  begun : monthStart start.monthIndex ≤ (rule.bound.clip windowEnd).number
  taken : ∃ months days, parseByMonth rule.byMonth = .ok months ∧
    Recurrence.daysInMonth start.year start.month rule start = .ok days ∧
    let acc : Acc := ⟨[], start, rule.bound.clip windowEnd, months, rule.bound.limit, cap⟩
    acc.HasRoom ((start :: days).filter acc.admits).toFinset.card

theorem movesOn_iff {months : Option (List Nat)} :
    (∃ acc₁, (⟨[], start, rule.bound.clip windowEnd, months, rule.bound.limit, cap⟩ : Acc).emit start =
        .ok (false, acc₁) ∧ MovesOn rule acc₁ start.year start.month) ↔
      monthStart start.monthIndex ≤ (rule.bound.clip windowEnd).number ∧
        ∃ days, Recurrence.daysInMonth start.year start.month rule start = .ok days ∧
          let acc : Acc := ⟨[], start, rule.bound.clip windowEnd, months, rule.bound.limit, cap⟩
          acc.HasRoom ((start :: days).filter acc.admits).toFinset.card := by
  set acc : Acc := ⟨[], start, rule.bound.clip windowEnd, months, rule.bound.limit, cap⟩
  have hmonth : 1 ≤ start.month ∧ start.month ≤ 12 := ⟨start.isDate.1, start.isDate.2.1⟩
  have hall : ∀ days, (∃ acc', acc.emitAll (start :: days) = .ok (false, acc')) ↔
      acc.HasRoom ((start :: days).filter acc.admits).toFinset.card := by
    intro days
    have hempty : acc.HasRoom acc.out.length := ⟨Nat.zero_le _, rule.bound.limit_pos⟩
    have hgoesOn := @emitAll_goesOn_iff acc (start :: days) List.nodup_nil hempty
    rw [hgoesOn]
    show acc.HasRoom (([] : List Date).toFinset ∪ _).card ↔ _
    rw [List.toFinset_nil, Finset.empty_union]
  constructor
  · rintro ⟨acc₁, hemit, first, days, acc', hfirst, hle, hdays, hgoesOn⟩
    have hsame := emit_same hemit
    rw [hsame.start] at hdays
    rw [hsame.upper] at hle
    have hnumber : first.number = monthStart start.monthIndex := first_number hmonth.1 hmonth.2 hfirst
    refine ⟨?_, days, hdays, (hall days).mp (emitAll_cons_goesOn.mpr ⟨acc₁, hemit, acc', hgoesOn⟩)⟩
    rw [← hnumber]
    exact hle
  · rintro ⟨hbegun, days, hdays, hroom⟩
    obtain ⟨acc₁, hemit, acc', hgoesOn⟩ := emitAll_cons_goesOn.mp ((hall days).mpr hroom)
    have hsame := emit_same hemit
    obtain ⟨first, hfirst⟩ : ∃ first, ymd start.year start.month 1 = .ok first := by
      refine ⟨⟨start.year, start.month, 1, start.inRange, hmonth.1, hmonth.2, le_refl 1, ?_⟩,
        ymd_eq_ok_iff.mpr ⟨rfl, rfl, rfl⟩⟩
      have hlength := daysInMonth_bounds start
      unfold Date.daysInMonth at hlength
      omega
    have hnumber : first.number = monthStart start.monthIndex := first_number hmonth.1 hmonth.2 hfirst
    refine ⟨acc₁, hemit, first, days, acc', hfirst, ?_, ?_, hgoesOn⟩
    · rw [hsame.upper, Date.le_def, hnumber]
      exact hbegun
    · rw [hsame.start]
      exact hdays

theorem occurrenceDates_of (htypes : InTypes rule)
    (hrounds : ((rule.bound.clip windowEnd).number - start.number).toNat + 366 ≤ rounds)
    (hnot : ¬StepsPast start rule windowEnd cap) : occurrenceDates rounds start rule windowEnd cap =
      of (Recurrence.occurrenceDates start rule windowEnd cap) := by
  unfold occurrenceDates Recurrence.occurrenceDates
  refine of_bind fun _ hsupported => ?_
  rw [checkSupported_eq_ok_iff] at hsupported
  refine of_bind fun months hmonths => ?_
  refine of_bind fun r hemit => ?_
  obtain ⟨stop, acc⟩ := r
  cases stop with
  | true => rfl
  | false =>
    show (generate rule rounds acc >>= _) = of (Recurrence.generate rule acc >>= _)
    refine bind_of ?_ fun acc' _ => rfl
    have hsame := emit_same hemit
    have hstart : acc.start = start := hsame.start
    have hupper : acc.upper = rule.bound.clip windowEnd := hsame.upper
    refine generate_of htypes hsupported ?_ (by unfold roundsTo; rw [hstart, hupper]; exact hrounds)
    rw [hstart]
    rintro hmonthly ⟨hfar, hmoves⟩
    obtain ⟨hbegun, days, hdays, hroom⟩ := movesOn_iff.mp ⟨acc, hemit, hmoves⟩
    exact hnot ⟨hsupported, hmonthly, hfar, hbegun, months, days, hmonths, hdays, hroom⟩

theorem occurrenceDates_stuck (htypes : InTypes rule) (h : StepsPast start rule windowEnd cap) :
    occurrenceDates rounds start rule windowEnd cap = stuck := by
  obtain ⟨months, days, hmonths, hdays, hroom⟩ := h.taken
  obtain ⟨acc, hemit, hmoves⟩ := movesOn_iff.mpr ⟨h.begun, days, hdays, hroom⟩
  have hstart : acc.start = start := (emit_same hemit).start
  have hmonthly : generateMonthly rule rounds acc start.year start.month = stuck := by
    cases rounds with
    | zero => rfl
    | succ rounds => exact generateMonthly_stuck htypes start.isDate.2.1 h.tooFar hmoves
  unfold occurrenceDates
  rw [checkSupported_eq_ok_iff.mpr h.supported]
  show (of (parseByMonth rule.byMonth) >>= _) = _
  rw [hmonths]
  show (of (Acc.emit ⟨[], start, rule.bound.clip windowEnd, months, rule.bound.limit, cap⟩ start) >>= _) = _
  rw [hemit]
  show (generate rule rounds acc >>= _) = _
  unfold generate
  rw [h.monthly]
  show (generateMonthly rule rounds acc acc.start.year acc.start.month >>= _) = _
  rw [hstart, hmonthly]
  rfl

end Rules

/-! ## Ranges of instants -/

section Ranges

variable {Zone : Type} {tz : Tzdb Zone} {zone : Zone} {t : UtcDateTime} {duration : Duration}

theorem utcNanos_nonneg_iff (t : UtcDateTime) : 0 ≤ utcNanos t ↔ 0 ≤ (Clock.wallOf t).date.year := by
  have hnanos : utcNanos t = (Clock.wallOf t).nanos := by
    rw [wallOf_nanos]
    rfl
  rw [hnanos, year_nonneg_iff]

/-- The text of an instant has no character of several bytes, so the parser does not panic over it. -/
theorem isAscii_timestampText (t : UtcDateTime) : ∀ c ∈ timestampText t, c.toNat < 128 := by
  intro c hc
  by_cases hwhole : (Clock.wallOf t).time.nanosecond = 0
  · have htext : timestampText t = Clock.formatDate (Clock.wallOf t).date ++ 'T' ::
        (Clock.formatClock (Clock.wallOf t).time ++ ['Z']) := by
      unfold timestampText Clock.formatWallClock Clock.formatFraction
      dsimp only
      rw [if_pos hwhole, if_pos hwhole, List.append_nil, List.append_assoc, List.cons_append]
    rw [htext] at hc
    unfold Clock.formatClock at hc
    simp only [List.mem_append, List.mem_cons, List.not_mem_nil, or_false] at hc
    rcases hc with hc | rfl | (hc | rfl | hc | rfl | hc) | rfl
    · exact isAscii_formatDate _ c hc
    · decide
    · exact isAscii_zeroPadded c hc
    · decide
    · exact isAscii_zeroPadded c hc
    · decide
    · exact isAscii_zeroPadded c hc
    · decide
  · have htext : timestampText t = Clock.toSortableString t := by
      unfold timestampText Clock.toSortableString
      dsimp only
      rw [if_neg hwhole]
    rw [htext] at hc
    exact isAscii_toSortableString t c hc

theorem timestampText_of_neg {t : UtcDateTime} (hyear : ¬0 ≤ (Clock.wallOf t).date.year) :
    ∃ rest, timestampText t = '-' :: (rest ++ ['Z']) := by
  obtain ⟨date, hdate⟩ : ∃ date, Clock.formatDate (Clock.wallOf t).date = '-' :: date := by
    unfold Clock.formatDate zeroPaddedInt
    rw [if_pos (by omega)]
    exact ⟨_, rfl⟩
  unfold timestampText Clock.formatWallClock Clock.formatWallClockFixed
  dsimp only
  rw [hdate]
  split
  · exact ⟨_, rfl⟩
  · exact ⟨_, rfl⟩

theorem timestampToUtc_of (t : UtcDateTime) : timestampToUtc t = of (Recurrence.timestampToUtc t) := by
  have hreads : 0 ≤ (Clock.wallOf t).date.year → Clock.Gives (Clock.parseUtcDateTime (timestampText t)) t := by
    intro hyear
    unfold Clock.parseUtcDateTime timestampText
    dsimp only
    rw [stripBack_append]
    refine gives_map.mpr ⟨Clock.wallOf t, ?_, utcOf_wallOf t⟩
    split
    · exact gives_parse_formatWallClock hyear
    · exact gives_parse_formatWallClockFixed hyear
  unfold timestampToUtc Recurrence.timestampToUtc
  by_cases hyear : 0 ≤ (Clock.wallOf t).date.year
  · have hrun : (Clock.parseUtcDateTime (timestampText t)).run = some (.ok t) := hreads hyear
    rw [if_pos ((utcNanos_nonneg_iff t).mpr hyear), hrun]
    rfl
  · obtain ⟨rest, htext⟩ := timestampText_of_neg hyear
    obtain ⟨e, hrun⟩ := parse_of_sign htext (isAscii_timestampText t)
    rw [if_neg fun h => hyear ((utcNanos_nonneg_iff t).mp h), hrun]

theorem addDaysOf_of {days : Nat} (hdays : days ≤ maxDurationDays) :
    addDaysOf tz zone t days = of (Recurrence.addDaysOf tz zone t days) := by
  have hspan : daysSpan days = of (.ok days) := if_pos (le_trans hdays (by decide))
  unfold addDaysOf Recurrence.addDaysOf
  split
  · rfl
  · rw [hspan]
    rfl

theorem addTimeOf_of {seconds nanoseconds : Nat} (hseconds : seconds < 2 ^ 63) (hnanos : nanoseconds < 1000000000) :
    addTimeOf tz t seconds nanoseconds = of (Recurrence.addTimeOf tz t seconds nanoseconds) := by
  have hsum : signedDuration seconds nanoseconds = of (.ok (seconds, nanoseconds)) := by
    have hwhole : signed 64 (seconds + (nanoseconds / 1000000000 : Nat)) = of (.ok seconds) := by
      rw [Nat.div_eq_of_lt hnanos]
      exact signed_of (by omega) (by omega)
    unfold signedDuration
    rw [hwhole, Nat.mod_eq_of_lt hnanos]
    rfl
  unfold addTimeOf Recurrence.addTimeOf
  split
  · rfl
  · rw [hsum]
    rfl

theorem addDuration_of : addDuration tz zone t duration = of (Recurrence.addDuration tz zone t duration) := by
  have hsubsecond := duration.subsecond
  have hmost : maxDurationDays < 2 ^ 63 := by decide
  unfold addDuration Recurrence.addDuration
  by_cases hzero : duration.days = 0 ∧ duration.seconds = 0 ∧ duration.nanoseconds = 0
  · rw [if_pos hzero, hzero.1, hzero.2.1, hzero.2.2]
    rfl
  · rw [if_neg hzero]
    by_cases hdays : maxDurationDays < duration.days
    · rw [if_pos (.inr hdays), if_pos (by simp only [Bool.or_eq_true, decide_eq_true_eq]; omega)]
    · rw [if_neg (by omega)]
      by_cases hseconds : 2 ^ 63 ≤ duration.seconds
      · rw [if_pos (.inl hseconds), if_pos (by simp only [Bool.or_eq_true, decide_eq_true_eq]; omega)]
      · rw [if_neg (by omega), if_neg (by simp only [Bool.or_eq_true, decide_eq_true_eq]; omega)]
        refine bind_of (addDaysOf_of (by omega)) fun later _ => ?_
        exact addTimeOf_of (by omega) hsubsecond

theorem resolveRange_of (zone : Zone) (wall : LocalDateTime) (duration : Duration) :
    resolveRange tz zone wall duration = of (Recurrence.resolveRange tz zone wall duration) := by
  unfold resolveRange Recurrence.resolveRange
  refine of_bind fun start _ => ?_
  refine bind_of addDuration_of fun finish _ => ?_
  refine bind_of (timestampToUtc_of start) fun start' _ => ?_
  exact bind_of (timestampToUtc_of finish) fun finish' _ => rfl

end Ranges

/-! ## The expansion -/

/-- The dates of a rule come to a value or an error after enough rounds, and so does every range of instants, exactly
where the rule does not step past what 32 bits hold. -/
theorem occurrenceDates_returns_iff {Zone : Type} (tz : Tzdb Zone) (htypes : InTypes rule) (start windowEnd : Date)
    (cap : Nat) :
    ((∃ result enough, ∀ rounds, enough ≤ rounds → (occurrenceDates rounds start rule windowEnd cap).run = some result) ∧
      ∀ zone wall duration, ∃ result, (resolveRange tz zone wall duration).run = some result) ↔
    ¬StepsPast start rule windowEnd cap := by
  constructor
  · rintro ⟨⟨result, enough, hreturns⟩, -⟩ hpast
    have hrun := hreturns enough (le_refl enough)
    rw [occurrenceDates_stuck htypes hpast] at hrun
    exact nomatch hrun
  · intro hnot
    refine ⟨⟨Recurrence.occurrenceDates start rule windowEnd cap,
      ((rule.bound.clip windowEnd).number - start.number).toNat + 366, fun rounds hrounds => ?_⟩, ?_⟩
    · rw [occurrenceDates_of htypes hrounds hnot]
      rfl
    · intro zone wall duration
      rw [resolveRange_of]
      exact ⟨_, rfl⟩

/-! ## Samples -/

def Sample.everyMonths (interval : Nat) (h : 0 < interval) : RecurrenceRule :=
  { RecurrenceRule.new .monthly with interval, intervalPos := h }

open Checked.Sample

def Sample.february : Date := ⟨2024, 2, 1, Recurrence.Sample.year_inRange, by decide⟩

theorem Sample.everyMonths_inTypes {interval : Nat} (hpos : 0 < interval) (hlt : interval < 2 ^ 32) :
    InTypes (everyMonths interval hpos) := ⟨hlt, fun _ hmd => absurd hmd List.not_mem_nil⟩

theorem Sample.stepsPast_february :
    StepsPast february (everyMonths 2147483647 (by decide)) Recurrence.Sample.yearEnd 1000 where
  supported := checkSupported_eq_ok_iff.mp (by decide)
  monthly := rfl
  tooFar := ⟨by decide, by decide⟩
  begun := by decide
  taken := by
    refine ⟨none, [february], rfl, by decide, ?_, fun c hc => nomatch hc⟩
    decide

theorem occurrenceDates_returns_monthly : (∃ result enough, ∀ rounds, enough ≤ rounds → (occurrenceDates rounds february
        (everyMonths 1 (by decide)) Recurrence.Sample.yearEnd 1000).run = some result) ∧
      ∀ zone wall duration, ∃ result, (resolveRange Recurrence.Sample.utcOnly zone wall duration).run = some result :=
  (occurrenceDates_returns_iff Recurrence.Sample.utcOnly
    (everyMonths_inTypes (by decide) (by decide)) february Recurrence.Sample.yearEnd 1000).mpr
      fun h => absurd h.tooFar.2 (by decide)

theorem occurrenceDates_overflows :
    ¬∀ (start : Date) (rule : RecurrenceRule) (windowEnd : Date) (cap : Nat), InTypes rule →
      ∃ result enough, ∀ rounds, enough ≤ rounds →
        (occurrenceDates rounds start rule windowEnd cap).run = some result := by
  intro h
  obtain ⟨result, enough, hreturns⟩ := h february (everyMonths 2147483647 (by decide))
    Recurrence.Sample.yearEnd 1000 (everyMonths_inTypes (by decide) (by decide))
  have hrun := hreturns enough (le_refl enough)
  rw [occurrenceDates_stuck (everyMonths_inTypes (by decide) (by decide)) stepsPast_february] at hrun
  exact nomatch hrun

end Checked

end Recurrence
end SyncEngine
