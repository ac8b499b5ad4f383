import SyncEngine.Google.Panics

/-!
# The instants of event times

A time is given as a date-time with its offset, and with the name of a zone.  The engine keeps the wall clock before
the offset, in that zone.  It is the same instant where the offset is the zone's own at that wall clock.
-/

namespace SyncEngine
namespace Google

open Clock

open Utf8

open Panicking (ofResult Gives)
open Recurrence (Date Time LocalDateTime CalendarDateTime TimeZoneId nanosPerDay)

/-! ## Date-times with an offset -/

/-- What ends a date-time: `Z` or an offset. -/
inductive Designator
  | zulu (lower : Bool)
  | offset (negative : Bool) (hours minutes : Nat) (h : hours < 24 ∧ minutes < 60)

namespace Designator

def text : Designator → List Char
  | zulu lower => [if lower then 'z' else 'Z']
  | offset negative hours minutes _ =>
    (if negative then '-' else '+') :: (zeroPadded 2 hours ++ ':' :: zeroPadded 2 minutes)

def seconds : Designator → Int
  | zulu _ => 0
  | offset negative hours minutes _ => (if negative then -1 else 1) * ((hours * 60 + minutes : Nat) : Int) * 60

end Designator

/-- A date-time as RFC 3339 writes it, leap seconds and small letters included. -/
structure Rfc3339 where
  date : Date
  hour : Nat
  minute : Nat
  second : Nat
  fraction : List Char
  lower : Bool
  designator : Designator
  nonneg : 0 ≤ date.year
  clock : hour < 24 ∧ minute < 60 ∧ second ≤ 60
  digits : IsDigits fraction

namespace Rfc3339

def fractionText (x : Rfc3339) : List Char := if x.fraction = [] then [] else '.' :: x.fraction

def clockText (x : Rfc3339) : List Char :=
  zeroPadded 2 x.hour ++ ':' :: (zeroPadded 2 x.minute ++ ':' :: (zeroPadded 2 x.second ++ x.fractionText))

def separator (x : Rfc3339) : Char := if x.lower then 't' else 'T'

def text (x : Rfc3339) : List Char :=
  Clock.formatDate x.date ++ x.separator :: (x.clockText ++ x.designator.text)

/-- What the wall clock before the offset shows, counted as `LocalDateTime.nanos` is. -/
def shown (x : Rfc3339) : Int :=
  x.date.number * nanosPerDay + ((x.hour * 60 + x.minute) * 60 + x.second) * 1000000000 + Clock.fractionNanos x.fraction

def instant (x : Rfc3339) : Int := x.shown - x.designator.seconds * 1000000000

/-- The wall clock as it is written. -/
structure IsWall (x : Rfc3339) (wall : LocalDateTime) : Prop where
  date : wall.date = x.date
  hour : wall.time.hour = x.hour
  minute : wall.time.minute = x.minute
  second : wall.time.second = x.second
  nanosecond : wall.time.nanosecond = Clock.fractionNanos x.fraction

variable {x : Rfc3339} {wall : LocalDateTime}

theorem IsWall.nanos (h : x.IsWall wall) : wall.nanos = x.shown := by
  unfold LocalDateTime.nanos Time.nanos shown
  rw [h.date, h.hour, h.minute, h.second, h.nanosecond]
  omega

/-! ## Read by the engine -/

theorem gives_unique {α : Type} {p : Clock.Parsed α} {a b : α} (ha : Clock.Gives p a) (hb : Clock.Gives p b) : a = b :=
  Except.ok.inj (Option.some.inj (ha.symm.trans hb))

theorem size_two {n : Nat} (hn : n < 100) : size (zeroPadded 2 n) = 2 := size_zeroPadded (by decide) hn

theorem eq_of_gives_two {n m : Nat} {expected : String} (hn : n < 100)
    (h : Clock.Gives (Clock.parseDigits (zeroPadded 2 n) expected) m) : m = n :=
  ((gives_parseDigits_zeroPadded (by decide) hn (by decide)).mp h).symm

theorem nanosecond_of_gives {before : List Char} {e : Clock.TimeError} {n : Nat} (hbefore : size before = 8)
    (h : Clock.Gives (Clock.parseFraction (before ++ x.fractionText) e) n) : n = Clock.fractionNanos x.fraction := by
  unfold fractionText at h
  by_cases hempty : x.fraction = []
  · rw [if_pos hempty, List.append_nil, parseFraction_of_size hbefore] at h
    rw [← gives_pure.mp h, hempty]
    decide
  · rw [if_neg hempty] at h
    have hdot : Char.utf8Size '.' = 1 := by decide
    have hsize : size (before ++ '.' :: x.fraction) ≠ 8 := by
      rw [size_append, size_cons]
      omega
    unfold Clock.parseFraction at h
    rw [if_neg hsize] at h
    simp only [gives_bind, gives_slice] at h
    obtain ⟨_, -, fraction, hslice, h⟩ := h
    have hcut := @slice?_append_right 9 (before ++ ['.']) x.fraction (size (before ++ '.' :: x.fraction))
      (by rw [size_append, size_cons, size_nil]; omega)
      (by rw [size_append, size_cons]; omega)
    rw [List.append_assoc, List.singleton_append, hslice] at hcut
    rw [Option.some.inj hcut] at h
    exact ((gives_parseSubsecond.mp h).2.2).symm

theorem clock_of_gives {t : Time} (h : Clock.Gives (Clock.parseHms x.clockText) t) :
    t.hour = x.hour ∧ t.minute = x.minute ∧ t.second = x.second ∧ t.nanosecond = Clock.fractionNanos x.fraction := by
  obtain ⟨hhour, hminute, hsecond⟩ := x.clock
  have hh := size_two (show x.hour < 100 by omega)
  have hm := size_two (show x.minute < 100 by omega)
  have hs := size_two (show x.second < 100 by omega)
  obtain ⟨hsh, hsm, hss⟩ := @hms_slices _ _ (zeroPadded 2 x.second ++ x.fractionText) hh hm
  have hcut : (cutAt? (zeroPadded 2 x.second ++ x.fractionText) 2).map Prod.fst = some (zeroPadded 2 x.second) := by
    have happend := @cutAt?_append (zeroPadded 2 x.second) x.fractionText
    rw [hs] at happend
    rw [happend]
    rfl
  rw [hcut] at hss
  unfold clockText Clock.parseHms at h
  simp only [gives_bind, gives_slice, hsh, hsm, hss] at h
  obtain ⟨_, -, _, -, _, -, hourText, hh', hour, hhour', minuteText, hm', minute, hminute', secondText, hs', second,
    hsecond', nanosecond, hfraction, hclock⟩ := h
  cases hh'
  cases hm'
  cases hs'
  have hfront : size (zeroPadded 2 x.hour ++ ':' :: (zeroPadded 2 x.minute ++ ':' :: zeroPadded 2 x.second)) = 8 := by
    rw [size_hms]
    omega
  have hnano : nanosecond = Clock.fractionNanos x.fraction := by
    apply nanosecond_of_gives hfront
    simp only [List.append_assoc, List.cons_append]
    exact hfraction
  unfold Clock.fromHmsNano at hclock
  rw [gives_orOutOfRange] at hclock
  split at hclock
  · cases hclock
    exact ⟨eq_of_gives_two (by omega) hhour', eq_of_gives_two (by omega) hminute', eq_of_gives_two (by omega) hsecond', hnano⟩
  · cases hclock

theorem isWall_of_gives
    (h : Clock.Gives (Clock.parseWallClock (Clock.formatDate x.date ++ 'T' :: x.clockText)) wall) : x.IsWall wall := by
  have hdate := size_formatDate x.nonneg
  obtain ⟨-, hsd, hst⟩ := @wallClock_slices _ x.clockText hdate
  unfold Clock.parseWallClock at h
  simp only [gives_bind, gives_slice, gives_pure, hsd, hst] at h
  obtain ⟨_, -, _, -, dateText, hd, date, hgivesDate, timeText, ht, time, hgivesTime, rfl⟩ := h
  cases hd
  cases ht
  obtain ⟨hhour, hminute, hsecond, hnano⟩ := clock_of_gives hgivesTime
  exact ⟨gives_unique hgivesDate (gives_parseYmd.mpr ⟨x.nonneg, rfl⟩), hhour, hminute, hsecond, hnano⟩

/-! ## Cut before the offset -/

theorem mem_zeroPadded {c : Char} {width n : Nat} (h : c ∈ zeroPadded width n) : 48 ≤ c.toNat ∧ c.toNat ≤ 57 :=
  digit_bounds (isDigits_zeroPadded c h)

theorem mem_formatDate {c : Char} (h : c ∈ Clock.formatDate x.date) : c.toNat < 58 := by
  rw [formatDate_of_nonneg x.nonneg] at h
  have hdash : '-'.toNat = 45 := by decide
  rcases List.mem_append.mp h with h | h
  · have hbounds := mem_zeroPadded h
    omega
  · rcases List.mem_cons.mp h with rfl | h
    · omega
    · rcases List.mem_append.mp h with h | h
      · have hbounds := mem_zeroPadded h
        omega
      · rcases List.mem_cons.mp h with rfl | h
        · omega
        · have hbounds := mem_zeroPadded h
          omega

theorem mem_clockText {c : Char} (h : c ∈ x.clockText) : 46 ≤ c.toNat ∧ c.toNat ≤ 58 := by
  have hcolon : ':'.toNat = 58 := by decide
  have hdot : '.'.toNat = 46 := by decide
  have hpadded : ∀ {n}, c ∈ zeroPadded 2 n → 46 ≤ c.toNat ∧ c.toNat ≤ 58 := by
    intro n hc
    have hbounds := mem_zeroPadded hc
    omega
  rcases List.mem_append.mp h with h | h
  · exact hpadded h
  · rcases List.mem_cons.mp h with rfl | h
    · omega
    · rcases List.mem_append.mp h with h | h
      · exact hpadded h
      · rcases List.mem_cons.mp h with rfl | h
        · omega
        · rcases List.mem_append.mp h with h | h
          · exact hpadded h
          · unfold fractionText at h
            split at h
            · exact absurd h List.not_mem_nil
            · rcases List.mem_cons.mp h with rfl | h
              · omega
              · have hbounds := digit_bounds (x.digits c h)
                omega

theorem designator_text_eq : ∃ c rest, x.designator.text = c :: rest ∧ isDesignator c = true := by
  cases x.designator with
  | zulu lower => cases lower <;> exact ⟨_, _, rfl, by decide⟩
  | offset negative hours minutes h => cases negative <;> exact ⟨_, _, rfl, by decide⟩

theorem designator_text_ne {c : Char} (h : c ∈ x.designator.text) : c ≠ 'T' := by
  rintro rfl
  have hT : 'T'.toNat = 84 := by decide
  cases hd : x.designator with
  | zulu lower => cases lower <;> simp [hd, Designator.text] at h
  | offset negative hours minutes _ =>
    rw [hd] at h
    rcases List.mem_cons.mp h with h | h
    · cases negative <;> exact absurd h (by decide)
    · rcases List.mem_append.mp h with h | h
      · have hbounds := mem_zeroPadded h
        omega
      · rcases List.mem_cons.mp h with h | h
        · exact absurd h (by decide)
        · have hbounds := mem_zeroPadded h
          omega

theorem formatDate_ne {c : Char} (h : c ∈ Clock.formatDate x.date) : c ≠ 'T' := by
  rintro rfl
  exact absurd (mem_formatDate h) (by decide)

theorem wallText_eq (hupper : x.lower = false) : wallText x.text = Clock.formatDate x.date ++ 'T' :: x.clockText := by
  have htext : x.text = Clock.formatDate x.date ++ 'T' :: (x.clockText ++ x.designator.text) := by
    unfold text separator
    rw [hupper]
    rfl
  have hsplit : splitAtFirst ['T'] x.text = some (Clock.formatDate x.date, x.clockText ++ x.designator.text) :=
    splitAtFirst_eq_some_iff.mpr ⟨htext, fun c hc => formatDate_ne hc⟩
  obtain ⟨d, rest, hdesignator, hd⟩ := @designator_text_eq x
  have htake : (x.clockText ++ x.designator.text).takeWhile (fun c => !isDesignator c) = x.clockText := by
    rw [List.takeWhile_append_of_pos, hdesignator, List.takeWhile_cons, if_neg (by rw [hd]; decide), List.append_nil]
    intro c hc
    have hbounds := mem_clockText hc
    have hnot : ∀ m : Char, m.toNat < 46 ∨ 58 < m.toNat → c ≠ m := by
      rintro m hm rfl
      omega
    unfold isDesignator
    simp [hnot '+' (by decide), hnot '-' (by decide), hnot 'Z' (by decide), hnot 'z' (by decide)]
  unfold wallText
  rw [hsplit]
  dsimp only
  rw [htake]

theorem not_gives_of_lower (hlower : x.lower = true) : ¬ Clock.Gives (Clock.parseWallClock (wallText x.text)) wall := by
  have htext : x.text = Clock.formatDate x.date ++ 't' :: (x.clockText ++ x.designator.text) := by
    unfold text separator
    rw [hlower]
    rfl
  have hnone : splitAtFirst ['T'] x.text = none := by
    apply splitAtFirst_eq_none
    intro c hc
    rw [htext] at hc
    rcases List.mem_append.mp hc with hc | hc
    · exact formatDate_ne hc
    · rcases List.mem_cons.mp hc with rfl | hc
      · decide
      · rcases List.mem_append.mp hc with hc | hc
        · have hbounds := mem_clockText hc
          rintro rfl
          exact absurd hbounds.2 (by decide)
        · exact designator_text_ne hc
  have hwall : wallText x.text = x.text := by
    unfold wallText
    rw [hnone]
  intro h
  rw [hwall] at h
  unfold Clock.parseWallClock at h
  simp only [gives_bind, gives_expectByte] at h
  obtain ⟨_, -, _, hT, -⟩ := h
  have ht := @byteAt_append_cons 10 (Clock.formatDate x.date) (x.clockText ++ x.designator.text) 't' (by decide)
    (size_formatDate x.nonneg)
  rw [← htext, hT] at ht
  exact absurd ht (by decide)

theorem isWall_of_wallText (h : Clock.Gives (Clock.parseWallClock (wallText x.text)) wall) : x.IsWall wall := by
  cases hlower : x.lower with
  | true => exact absurd h (not_gives_of_lower hlower)
  | false =>
    rw [wallText_eq hlower] at h
    exact isWall_of_gives h

end Rfc3339

/-! ## Endpoints -/

/-- The instant a time in a zone is, where a zone is so many seconds ahead of UTC at a wall clock. -/
def Shows (offset : TimeZoneId → LocalDateTime → Int) (value : CalendarDateTime) (instant : Int) : Prop :=
  match value with
  | .zoned wall zone => wall.nanos - offset zone wall * 1000000000 = instant
  | _ => False

/-- A field is an object with a date-time and without a date. -/
structure IsTimed (value : Json) (key : String) (obj : Json) (x : Rfc3339) : Prop where
  object : value.get key = some obj
  noDate : obj.optStr "date" = none
  dateTime : obj.optStr "dateTime" = some (String.ofList x.text)

section Endpoints

variable {value obj : Json} {key calendar : String} {defaultZone : Option String} {x : Rfc3339} {t : CalendarDateTime}
  {offset : TimeZoneId → LocalDateTime → Int}

theorem shows_iff {wall : LocalDateTime} {zone : TimeZoneId} (hwall : x.IsWall wall) :
    Shows offset (.zoned wall zone) x.instant ↔ offset zone wall = x.designator.seconds := by
  unfold Shows Rfc3339.instant
  dsimp only
  rw [hwall.nanos]
  omega

theorem endpoint_eq (h : IsTimed value key obj x) (ht : Gives (parseEndpoint value key defaultZone) t) :
    ∃ wall, x.IsWall wall ∧ t = .zoned wall (.iana (zoneNameOf obj defaultZone)) := by
  unfold parseEndpoint at ht
  rw [h.object] at ht
  dsimp only at ht
  rw [h.noDate] at ht
  dsimp only at ht
  unfold parseTimed reqStr at ht
  rw [h.dateTime] at ht
  simp only [Panicking.gives_bind, Panicking.gives_ofResult, stripOffset_eq, Panicking.gives_pure] at ht
  obtain ⟨raw, hraw, wallText', hwallText, wall, hwall, zone, hzone, hgives⟩ := ht
  cases Except.ok.inj hraw
  rw [String.toList_ofList] at hwallText
  cases hwallText
  have hread : Clock.Gives (Clock.parseWallClock (wallText x.text)) wall := Panicking.gives_mapError.mp hwall
  refine ⟨wall, Rfc3339.isWall_of_wallText hread, ?_⟩
  rw [mapError_eq_ok] at hzone
  unfold newIanaZone at hzone
  split at hzone
  · cases hzone
  · rw [← Except.ok.inj hzone] at hgives
    exact hgives.symm

theorem pending_eq {p : PendingOverride} (hp : Gives (pendingOverride value calendar defaultZone) p) :
    ∃ original, Gives (parseEndpoint value "originalStartTime" defaultZone) original ∧ p.at_ = localOf original := by
  unfold pendingOverride at hp
  simp only [Panicking.gives_bind, Panicking.gives_pure] at hp
  obtain ⟨_, -, _, -, original, horiginal, _, -, rfl⟩ := hp
  exact ⟨original, horiginal, rfl⟩

end Endpoints

/-! ## Folded onto a series -/

section Folding

variable {p : PendingOverride} {overrides : List PendingOverride}

theorem get_insertAll {k : LocalDateTime} (own : List PendingOverride) (series : Series)
    (h : (∃ what, series.overrides.get? k = some what) ∨ ∃ q ∈ own, q.at_ = k) :
    ∃ what, (own.foldl (fun series entry => series.insert entry.at_ entry.what) series).overrides.get? k = some what := by
  induction own generalizing series with
  | nil =>
    cases h with
    | inl h => exact h
    | inr h =>
      obtain ⟨q, hq, -⟩ := h
      exact absurd hq List.not_mem_nil
  | cons q own ih =>
    apply ih
    have hget : (series.insert q.at_ q.what).overrides.get? k = if k = q.at_ then some q.what else series.overrides.get? k :=
      Keyed.get?_put series.overrides q.at_ q.what k
    by_cases hk : k = q.at_
    · rw [if_pos hk] at hget
      exact .inl ⟨_, hget⟩
    · rw [if_neg hk] at hget
      cases h with
      | inl h =>
        obtain ⟨what, hwhat⟩ := h
        exact .inl ⟨what, hget.trans hwhat⟩
      | inr h =>
        obtain ⟨r, hr, hrk⟩ := h
        cases List.mem_cons.mp hr with
        | inl heq => exact absurd (heq ▸ hrk).symm hk
        | inr hmem => exact .inr ⟨r, hmem, hrk⟩

theorem folded_of_mem (before : List Event) (event : Event) (after : List Event) (hp : p ∈ overrides)
    (hbefore : ∀ e ∈ before, e.id ≠ p.master) (hevent : event.id = p.master) :
    ∃ folded ∈ foldInto (before ++ event :: after) overrides, folded.id = event.id ∧ folded.start = event.start ∧
      ∃ series what, folded.recurrence = some series ∧ series.overrides.get? p.at_ = some what := by
  induction before generalizing overrides with
  | nil =>
    have hown : p ∈ overrides.filter (·.master = event.id) := by
      rw [List.mem_filter, decide_eq_true_eq]
      exact ⟨hp, hevent.symm⟩
    have hnonempty : (overrides.filter (·.master = event.id)).isEmpty = false :=
      List.isEmpty_eq_false_iff.mpr (List.ne_nil_of_mem hown)
    obtain ⟨what, hwhat⟩ := get_insertAll (overrides.filter (·.master = event.id)) (event.recurrence.getD .empty)
      (.inr ⟨p, hown, rfl⟩)
    rw [List.nil_append, foldInto]
    dsimp only
    rw [hnonempty]
    exact ⟨_, List.mem_cons_self, rfl, rfl, _, what, rfl, hwhat⟩
  | cons e before ih =>
    have hne := hbefore e List.mem_cons_self
    have hrest : p ∈ overrides.filter (·.master ≠ e.id) := by
      rw [List.mem_filter, decide_eq_true_eq]
      exact ⟨hp, fun heq => hne heq.symm⟩
    obtain ⟨folded, hmem, hfolded⟩ := ih hrest fun d hd => hbefore d (List.mem_cons_of_mem e hd)
    refine ⟨folded, ?_, hfolded⟩
    rw [List.cons_append, foldInto]
    dsimp only
    split
    · exact List.mem_cons_of_mem _ hmem
    · exact List.mem_cons_of_mem _ hmem

end Folding

/-- A time is the instant of its text where the offset of the text is that of the zone it is put in, and of no other
text.  An override is kept under the wall clock of its original start as it is written, which is the one of the series'
own zone under the same condition. -/
theorem event_times_keep_instant_iff (offset : TimeZoneId → LocalDateTime → Int) :
    (∀ (value obj : Json) (key : String) (defaultZone : Option String) (x : Rfc3339) (t : CalendarDateTime),
      IsTimed value key obj x → Gives (parseEndpoint value key defaultZone) t →
      ∃ wall, x.IsWall wall ∧ t = .zoned wall (.iana (zoneNameOf obj defaultZone)) ∧
        (Shows offset t x.instant ↔ offset (.iana (zoneNameOf obj defaultZone)) wall = x.designator.seconds)) ∧
    (∀ (value obj : Json) (calendar : String) (defaultZone : Option String) (x : Rfc3339) (p : PendingOverride),
      IsTimed value "originalStartTime" obj x → Gives (pendingOverride value calendar defaultZone) p →
      x.IsWall p.at_ ∧
      (∀ zone, Shows offset (.zoned p.at_ zone) x.instant ↔ offset zone p.at_ = x.designator.seconds) ∧
      ∀ overrides, p ∈ overrides → ∀ before event after, (∀ e ∈ before, e.id ≠ p.master) → event.id = p.master →
        ∃ folded ∈ foldInto (before ++ event :: after) overrides, folded.id = event.id ∧ folded.start = event.start ∧
          ∃ series what, folded.recurrence = some series ∧ series.overrides.get? p.at_ = some what) := by
  constructor
  · intro value obj key defaultZone x t htimed ht
    obtain ⟨wall, hwall, rfl⟩ := endpoint_eq htimed ht
    exact ⟨wall, hwall, rfl, shows_iff hwall⟩
  · intro value obj calendar defaultZone x p htimed hp
    obtain ⟨original, horiginal, hat⟩ := pending_eq hp
    obtain ⟨wall, hwall, rfl⟩ := endpoint_eq htimed horiginal
    have hwall' : x.IsWall p.at_ := by
      rw [hat]
      exact hwall
    refine ⟨hwall', fun zone => shows_iff hwall', ?_⟩
    intro overrides hmem before event after hbefore hevent
    exact folded_of_mem before event after hmem hbefore hevent

theorem Sample.year_inRange : -9999 ≤ (2026 : Int) ∧ (2026 : Int) ≤ 9999 := by decide

/-- Nine in the morning in UTC. -/
def Sample.morning : Rfc3339 where
  date := ⟨2026, 7, 18, year_inRange, by decide⟩
  hour := 9
  minute := 0
  second := 0
  fraction := []
  lower := false
  designator := .zulu false
  nonneg := by decide
  clock := by decide
  digits := fun c hc => absurd hc List.not_mem_nil

def Sample.start : Json := .obj [("dateTime", .str "2026-07-18T09:00:00Z")]

theorem Sample.nine_valid : 9 < 24 ∧ 0 < 60 ∧ 0 < 60 ∧ 0 < 1000000000 := by decide

def Sample.nine : LocalDateTime := ⟨⟨2026, 7, 18, year_inRange, by decide⟩, ⟨9, 0, 0, 0, nine_valid⟩⟩

theorem Sample.start_timed : IsTimed (.obj [("start", Sample.start)]) "start" Sample.start Sample.morning :=
  ⟨by simp, by decide, by decide⟩

/-- Nine in the morning, two hours ahead. -/
def Sample.ahead : Rfc3339 := { morning with designator := .offset false 2 0 (by decide) }

def Sample.startAhead : Json := .obj [("dateTime", .str "2026-07-18T09:00:00+02:00")]

/-- An entry that takes away the occurrence of a series at that time. -/
def Sample.entry : Json := .obj
  [("recurringEventId", .str "ev1"), ("status", .str "cancelled"), ("start", startAhead), ("originalStartTime", startAhead)]

def Sample.amsterdam : TimeZoneId := .iana "Europe/Amsterdam"

def Sample.summer (zone : TimeZoneId) (_ : LocalDateTime) : Int := if zone = amsterdam then 7200 else 0

def Sample.removed : PendingOverride := ⟨"cal/ev1", nine, .excluded⟩

def Sample.series : Event where
  id := "cal/ev1"
  uid := "ev1@google.com"
  calendar := "cal"
  start := .zoned nine amsterdam
  duration := .zero
  title := "Stand-up"
  description := none
  status := .confirmed
  free := false
  privacy := .pub
  created := none
  updated := none
  recurrence := some .empty
  participants := []
  locations := []
  conferences := []
  etag := none
  raw := .null

open Sample in
theorem event_time_kept : Shows summer (.zoned nine amsterdam) ahead.instant ∧
    Shows summer (.zoned removed.at_ amsterdam) ahead.instant ∧ ∃ folded ∈ foldInto [series] [removed],
      folded.id = series.id ∧ ∃ kept what, folded.recurrence = some kept ∧ kept.overrides.get? nine = some what := by
  have htimed : ∀ key ∈ ["start", "originalStartTime"], IsTimed entry key startAhead ahead := by
    intro key hkey
    rcases List.mem_cons.mp hkey with rfl | hkey
    · exact ⟨by rfl, by decide, by decide +kernel⟩
    · rw [List.mem_singleton.mp hkey]
      exact ⟨by rfl, by decide, by decide +kernel⟩
  have hread : Gives (parseEndpoint entry "start" (some "Europe/Amsterdam")) (.zoned nine amsterdam) :=
    Panicking.gives_of_toOption (by decide +kernel)
  have hpending : Gives (pendingOverride entry "cal" (some "Europe/Amsterdam")) removed :=
    Panicking.gives_of_toOption (by rfl)
  have hkeep := event_times_keep_instant_iff summer
  obtain ⟨wall, -, -, hshows⟩ := hkeep.1 _ _ _ _ _ _ (htimed "start" (by simp)) hread
  obtain ⟨-, hzone, hfold⟩ := hkeep.2 _ _ _ _ _ _ (htimed "originalStartTime" (by simp)) hpending
  refine ⟨hshows.mpr rfl, (hzone amsterdam).mpr rfl, ?_⟩
  obtain ⟨folded, hfolded, hid, -, kept, what, hkept, hwhat⟩ :=
    hfold [removed] List.mem_cons_self [] series [] (by simp) (by rfl)
  exact ⟨folded, hfolded, hid, kept, what, hkept, hwhat⟩

/-- A time given in UTC, in a calendar whose zone is two hours ahead. -/
theorem event_time_moves : ¬ ∀ (offset : TimeZoneId → LocalDateTime → Int) (value obj : Json) (key : String)
    (defaultZone : Option String) (x : Rfc3339) (t : CalendarDateTime),
    IsTimed value key obj x → Gives (parseEndpoint value key defaultZone) t → Shows offset t x.instant := by
  intro h
  have hread : Gives (parseEndpoint (.obj [("start", Sample.start)]) "start" (some "Europe/Amsterdam"))
      (.zoned Sample.nine (.iana "Europe/Amsterdam")) := Panicking.gives_of_toOption (by decide)
  have hshows := h (fun _ _ => 7200) _ _ _ _ _ _ Sample.start_timed hread
  unfold Shows at hshows
  exact absurd hshows (by decide)

end Google
end SyncEngine
