import SyncEngine.Clock.WallClock

/-!
# Instants as text that sorts

The text a store keeps of an instant has every digit, so that byte order is time order.  That holds from the year
0 on: a year before it is written with a sign, which is not read back and sorts the wrong way round.
-/

namespace SyncEngine
namespace Clock

open Civil

open Recurrence (Date Time LocalDateTime nanosPerDay)

def toSortableString (t : UtcDateTime) : List Char := formatWallClockFixed (wallOf t) ++ ['Z']

/-! ## The order of dates and times, part by part -/

def DateBefore (a b : Date) : Prop :=
  a.year < b.year ∨ a.year = b.year ∧ (a.month < b.month ∨ a.month = b.month ∧ a.day < b.day)

theorem number_lt_of_dateBefore {a b : Date} (h : DateBefore a b) : a.number < b.number := by
  have ha : a.number = dayNumber a.year a.month a.day := rfl
  have hb : b.number = dayNumber b.year b.month b.day := rfl
  rcases h with hyear | ⟨hyear, hmonth | ⟨hmonth, hday⟩⟩
  · have hend := a.isDate.inYear.2
    have hstart := b.isDate.inYear.1
    have hmono : beforeYear (a.year + 1) ≤ beforeYear b.year := beforeYear_mono (by omega)
    omega
  · have hend := a.isDate.inMonth.2
    have hstart := b.isDate.inMonth.1
    have hmono : beforeMonth a.year (a.month + 1) ≤ beforeMonth a.year b.month := beforeMonth_mono (by omega)
    unfold dayNumber at *
    rw [← hyear] at hstart hb
    omega
  · rw [ha, hb, hyear, hmonth]
    unfold dayNumber
    omega

theorem date_lt_iff {a b : Date} : a < b ↔ DateBefore a b := by
  rw [Date.lt_def]
  refine ⟨fun hlt => ?_, number_lt_of_dateBefore⟩
  by_contra hnot
  have hcase : DateBefore b a ∨ b = a := by
    unfold DateBefore at hnot ⊢
    rcases lt_trichotomy a.year b.year with hy | hy | hy
    · omega
    · rcases lt_trichotomy a.month b.month with hm | hm | hm
      · omega
      · rcases lt_trichotomy a.day b.day with hd | hd | hd
        · omega
        · refine .inr (Date.number_injective ?_)
          show dayNumber b.year b.month b.day = dayNumber a.year a.month a.day
          rw [hy, hm, hd]
        · omega
      · omega
    · omega
  rcases hcase with hafter | heq
  · have hgt := number_lt_of_dateBefore hafter
    omega
  · rw [heq] at hlt
    omega

theorem wallClock_lt_iff {a b : LocalDateTime} : a < b ↔ a.date < b.date ∨ a.date = b.date ∧ a.time.nanos < b.time.nanos := by
  have ha := a.time.nanos_bounds
  have hb := b.time.nanos_bounds
  rw [LocalDateTime.lt_def, Date.lt_def, ← Date.number_injective.eq_iff]
  unfold LocalDateTime.nanos
  unfold nanosPerDay at *
  omega

theorem time_lt_iff {a b : Time} : a.nanos < b.nanos ↔
    a.hour < b.hour ∨ a.hour = b.hour ∧ (a.minute < b.minute ∨ a.minute = b.minute ∧
      (a.second < b.second ∨ a.second = b.second ∧ a.nanosecond < b.nanosecond)) := by
  have ha := a.proper
  have hb := b.proper
  unfold Time.nanos
  omega

/-! ## The order of the texts -/

section Order

variable {a b : LocalDateTime}

theorem dateText_lt_iff {d e : Date} {s t : List Char} (hd : 0 ≤ d.year) (he : 0 ≤ e.year) :
    formatDate d ++ s < formatDate e ++ t ↔ d < e ∨ d = e ∧ s < t := by
  have hdyear := d.inRange.2
  have heyear := e.inRange.2
  have heq : d = e ↔ d.year.toNat = e.year.toNat ∧ d.month = e.month ∧ d.day = e.day := by
    constructor
    · rintro rfl
      exact ⟨rfl, rfl, rfl⟩
    · rintro ⟨hyear, hmonth, hday⟩
      refine Date.number_injective ?_
      show dayNumber d.year d.month d.day = dayNumber e.year e.month e.day
      rw [show d.year = e.year by omega, hmonth, hday]
  rw [formatDate_of_nonneg hd, formatDate_of_nonneg he, List.append_assoc, List.append_assoc, List.cons_append,
    List.cons_append, List.append_assoc, List.append_assoc, List.cons_append, List.cons_append,
    zeroPadded_append_lt_iff (by decide) (by omega) (by omega), cons_lt_cons_same,
    zeroPadded_append_lt_iff (by decide) (date_lt d).1 (date_lt e).1, cons_lt_cons_same,
    zeroPadded_append_lt_iff (by decide) (date_lt d).2 (date_lt e).2, date_lt_iff, heq]
  unfold DateBefore
  by_cases hrest : s < t
  · simp only [hrest, and_true]
    omega
  · simp only [hrest, and_false, or_false]
    omega

theorem clockText_lt_iff {t u : Time} {s r : List Char} :
    formatClock t ++ '.' :: (zeroPadded 9 t.nanosecond ++ s) < formatClock u ++ '.' :: (zeroPadded 9 u.nanosecond ++ r) ↔
      t.nanos < u.nanos ∨ t.nanos = u.nanos ∧ s < r := by
  have ht := time_lt t
  have hu := time_lt u
  have htp := t.proper
  have hup := u.proper
  have heq : t.nanos = u.nanos ↔ t.hour = u.hour ∧ t.minute = u.minute ∧ t.second = u.second ∧
      t.nanosecond = u.nanosecond := by
    unfold Time.nanos
    omega
  unfold formatClock
  rw [List.append_assoc, List.append_assoc, List.cons_append, List.cons_append, List.append_assoc,
    List.append_assoc, List.cons_append, List.cons_append,
    zeroPadded_append_lt_iff (by decide) ht.1 hu.1, cons_lt_cons_same,
    zeroPadded_append_lt_iff (by decide) ht.2.1 hu.2.1, cons_lt_cons_same,
    zeroPadded_append_lt_iff (by decide) ht.2.2 hu.2.2, cons_lt_cons_same,
    zeroPadded_append_lt_iff (by decide) htp.2.2.2 hup.2.2.2, time_lt_iff, heq]
  by_cases hrest : s < r
  · simp only [hrest, and_true]
    omega
  · simp only [hrest, and_false, or_false]

theorem formatWallClockFixed_lt_iff (ha : 0 ≤ a.date.year) (hb : 0 ≤ b.date.year) :
    formatWallClockFixed a ++ ['Z'] < formatWallClockFixed b ++ ['Z'] ↔ a < b := by
  unfold formatWallClockFixed
  rw [List.append_assoc, List.append_assoc, List.cons_append, List.cons_append, List.append_assoc,
    List.append_assoc, List.cons_append, List.cons_append, dateText_lt_iff ha hb, cons_lt_cons_same,
    clockText_lt_iff, wallClock_lt_iff]
  simp

end Order

/-! ## The stored text -/

theorem isAscii_zeroPadded {width n : Nat} : ∀ c ∈ zeroPadded width n, c.toNat < 128 := isDigits_lt isDigits_zeroPadded

theorem isAscii_formatDate (d : Date) : ∀ c ∈ formatDate d, c.toNat < 128 := by
  intro c hc
  unfold formatDate zeroPaddedInt at hc
  split at hc
  · simp only [List.mem_append, List.mem_cons] at hc
    rcases hc with (rfl | hc) | rfl | hc | rfl | hc
    · decide
    · exact isAscii_zeroPadded c hc
    · decide
    · exact isAscii_zeroPadded c hc
    · decide
    · exact isAscii_zeroPadded c hc
  · simp only [List.mem_append, List.mem_cons] at hc
    rcases hc with hc | rfl | hc | rfl | hc
    · exact isAscii_zeroPadded c hc
    · decide
    · exact isAscii_zeroPadded c hc
    · decide
    · exact isAscii_zeroPadded c hc

theorem isAscii_toSortableString (t : UtcDateTime) : ∀ c ∈ toSortableString t, c.toNat < 128 := by
  intro c hc
  unfold toSortableString formatWallClockFixed formatClock at hc
  simp only [List.mem_append, List.mem_cons, List.not_mem_nil, or_false] at hc
  rcases hc with (hc | rfl | (hc | rfl | hc | rfl | hc) | rfl | hc) | rfl
  · exact isAscii_formatDate _ c hc
  · decide
  · exact isAscii_zeroPadded c hc
  · decide
  · exact isAscii_zeroPadded c hc
  · decide
  · exact isAscii_zeroPadded c hc
  · decide
  · exact isAscii_zeroPadded c hc
  · decide

theorem gives_parse_toSortableString {t : UtcDateTime} (hyear : 0 ≤ (wallOf t).date.year) :
    Gives (parseUtcDateTime (toSortableString t)) t := by
  unfold parseUtcDateTime toSortableString
  rw [stripBack_append]
  exact gives_map.mpr ⟨wallOf t, gives_parse_formatWallClockFixed hyear, utcOf_wallOf t⟩

theorem year_of_gives_utc {s : List Char} {t : UtcDateTime} (h : Gives (parseUtcDateTime s) t) :
    0 ≤ (wallOf t).date.year := by
  unfold parseUtcDateTime at h
  cases hz : stripBack ['Z'] s with
  | none =>
    rw [hz] at h
    exact absurd h not_gives_throw
  | some body =>
    rw [hz] at h
    obtain ⟨wall, hwall, rfl⟩ := gives_map.mp h
    rw [wallOf_utcOf]
    exact year_of_gives hwall

theorem not_straddlesSeconds {s : List Char} (h : ∀ c ∈ s, c.toNat < 128) : ¬StraddlesSeconds s := by
  rintro ⟨d, time, -, rfl, hour, minute, after, rfl, -, -, hsize, hcut⟩
  have hafter : ∀ c ∈ after, c.toNat < 128 := by
    intro c hc
    refine h c ?_
    simp only [List.mem_append, List.mem_cons]
    exact .inr (.inr (.inr (.inr (.inr (.inr hc)))))
  have htwo : Utf8.size (after.take 2) = 2 := by
    rw [Utf8.size_eq_length hafter] at hsize
    rw [Utf8.size_eq_length fun c hc => hafter c (List.mem_of_mem_take hc), List.length_take]
    omega
  have hsome := @Utf8.cutAt?_append (after.take 2) (after.drop 2)
  rw [List.take_append_drop, htwo, hcut] at hsome
  exact nomatch hsome

theorem ne_sign_of_gives {s rest : List Char} {wall : LocalDateTime} (h : Gives (parseWallClock s) wall) :
    s ≠ '-' :: rest := by
  rintro rfl
  unfold parseWallClock at h
  simp only [gives_bind, gives_require, gives_expectByte, gives_slice] at h
  obtain ⟨_, hsize, _, hT, text, htext, date, hdate, -⟩ := h
  obtain ⟨date', time, hsplit, hsize', -⟩ := wallClock_shape hsize hT
  have hslice := (@wallClock_slices date' time hsize').2.1
  rw [← hsplit, htext] at hslice
  obtain rfl := Option.some.inj hslice
  obtain ⟨hyear, rfl⟩ := gives_parseYmd.mp hdate
  rw [formatDate_of_nonneg hyear] at hsplit
  have hlength : (zeroPadded 4 date.year.toNat).length = 4 := by
    have hrange := date.inRange.2
    exact length_zeroPadded (by omega) (by omega)
  cases hdigits : zeroPadded 4 date.year.toNat with
  | nil =>
    rw [hdigits] at hlength
    cases hlength
  | cons c digits =>
    rw [hdigits] at hsplit
    have hc : c = '-' := (List.cons.inj hsplit).1.symm
    have hdigit : c.isDigit = true := isDigits_zeroPadded c (by rw [hdigits]; exact List.mem_cons_self)
    rw [hc] at hdigit
    cases hdigit

theorem parse_of_sign {s rest : List Char} (hsign : s = '-' :: (rest ++ ['Z'])) (hascii : ∀ c ∈ s, c.toNat < 128) :
    ∃ e, (parseUtcDateTime s).run = some (.error e) := by
  cases hrun : (parseUtcDateTime s).run with
  | none => exact absurd hrun (not_panics_parseUtcDateTime (not_straddlesSeconds hascii))
  | some r =>
    cases r with
    | error e => exact ⟨e, rfl⟩
    | ok t =>
      have hgives : Gives (parseUtcDateTime s) t := hrun
      unfold parseUtcDateTime at hgives
      rw [hsign, ← List.cons_append, stripBack_append] at hgives
      obtain ⟨wall, hwall, -⟩ := gives_map.mp hgives
      exact absurd rfl (ne_sign_of_gives hwall)

theorem parse_toSortableString_of_neg {t : UtcDateTime} (hyear : ¬0 ≤ (wallOf t).date.year) :
    ∃ e, (parseUtcDateTime (toSortableString t)).run = some (.error e) := by
  obtain ⟨rest, htext⟩ : ∃ rest, toSortableString t = '-' :: (rest ++ ['Z']) := by
    unfold toSortableString formatWallClockFixed formatDate zeroPaddedInt
    rw [if_pos (by omega)]
    exact ⟨_, rfl⟩
  exact parse_of_sign htext (isAscii_toSortableString t)

theorem year_nonneg_iff {wall : LocalDateTime} : 0 ≤ wall.date.year ↔ 0 ≤ wall.nanos := by
  have htime := wall.time.nanos_bounds
  have hyear := wall.date.isDate.inYear
  have hnumber : wall.date.number = dayNumber wall.date.year wall.date.month wall.date.day := rfl
  have hzero : beforeYear 0 = 0 := by decide
  unfold LocalDateTime.nanos nanosPerDay
  unfold nanosPerDay at htime
  constructor
  · intro h
    have hafter : beforeYear 0 ≤ beforeYear wall.date.year := beforeYear_mono h
    omega
  · intro h
    by_contra hneg
    have hbefore : beforeYear (wall.date.year + 1) ≤ beforeYear 0 := beforeYear_mono (by omega)
    omega

/-- The stored texts of two instants are read back, and their bytes are in the order of the instants, exactly where
neither lies before the year 0. -/
theorem sortable_faithful_iff (a b : UtcDateTime) :
    (Gives (parseUtcDateTime (toSortableString a)) a ∧ Gives (parseUtcDateTime (toSortableString b)) b ∧
      (Utf8.bytes (toSortableString a) < Utf8.bytes (toSortableString b) ↔ a < b)) ↔
    0 ≤ (wallOf a).date.year ∧ 0 ≤ (wallOf b).date.year := by
  constructor
  · rintro ⟨ha, hb, -⟩
    exact ⟨year_of_gives_utc ha, year_of_gives_utc hb⟩
  · rintro ⟨ha, hb⟩
    refine ⟨gives_parse_toSortableString ha, gives_parse_toSortableString hb, ?_⟩
    rw [Utf8.bytes_lt_iff (isAscii_toSortableString a) (isAscii_toSortableString b)]
    exact (formatWallClockFixed_lt_iff ha hb).trans wallOf_lt_iff

/-- The last minute of the year -1, which a text with an offset names, and a minute of the year before. -/
theorem sortable_unfaithful : ∃ a b, Gives (parseRfc3339 "0000-01-01T00:00:00+00:01".toList) a ∧
      checkedSub (wallOf a) (366 * 24 * 60) = some b ∧
      ¬ Gives (parseUtcDateTime (toSortableString a)) a ∧
      b < a ∧ Utf8.bytes (toSortableString a) < Utf8.bytes (toSortableString b) := by
  have hread : ∃ a, (parseRfc3339 "0000-01-01T00:00:00+00:01".toList).run.bind Except.toOption = some a ∧
      (wallOf a).date.year < 0 ∧ ∃ b, checkedSub (wallOf a) (366 * 24 * 60) = some b ∧ b < a ∧
      Utf8.bytes (toSortableString a) < Utf8.bytes (toSortableString b) := by
    decide +kernel
  obtain ⟨a, ha, hyear, b, hb, hlt, htext⟩ := hread
  refine ⟨a, b, gives_of_toOption ha, hb, fun hgives => ?_, hlt, htext⟩
  have hnonneg := year_of_gives_utc hgives
  omega

end Clock
end SyncEngine
