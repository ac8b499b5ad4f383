import SyncEngine.Clock.Instant
import SyncEngine.Library.Padded

/-!
# Durations as text

Weeks are folded into days and hours and minutes into seconds, so a duration is days, seconds and nanoseconds.
The text leaves out what is zero.  The letter of a unit is one byte, so the offsets at which `split_unit` cuts are
those of characters.
-/

namespace SyncEngine
namespace Clock

open Utf8

/-!
## Writing dates and times

A date is written with four digits of the year, a time with a fraction only where there is one.  What is written
of a year from 0 to 9999 is what the parsers read back, and they read nothing else as the same value but more
closing zeros of the fraction.
-/

open Recurrence (Date Time LocalDateTime)

def formatDate (d : Date) : List Char :=
  zeroPaddedInt 4 d.year ++ '-' :: (zeroPadded 2 d.month ++ '-' :: zeroPadded 2 d.day)

/-- `hh:mm:ss`. -/
def formatClock (t : Time) : List Char :=
  zeroPadded 2 t.hour ++ ':' :: (zeroPadded 2 t.minute ++ ':' :: zeroPadded 2 t.second)

def formatFraction (nanos : Nat) : List Char :=
  if nanos = 0 then [] else '.' :: trimEndZeros (zeroPadded 9 nanos)

def formatWallClock (dt : LocalDateTime) : List Char :=
  formatDate dt.date ++ 'T' :: (formatClock dt.time ++ formatFraction dt.time.nanosecond)

/-- Every digit of the fraction is there. -/
def formatWallClockFixed (dt : LocalDateTime) : List Char :=
  formatDate dt.date ++ 'T' :: (formatClock dt.time ++ '.' :: zeroPadded 9 dt.time.nanosecond)

/-! ## Digits -/

section Digits

variable {s : List Char} {n : Nat}

theorem isDigits_iff : IsDigits s ↔ s.all Char.isDigit = true := List.all_eq_true.symm

theorem isDigits_lt (h : IsDigits s) : ∀ c ∈ s, c.toNat < 128 := by
  intro c hc
  have hbounds := digit_bounds (h c hc)
  omega

theorem size_digits (h : IsDigits s) : size s = s.length := size_eq_length (isDigits_lt h)

variable {width : Nat}

theorem size_zeroPadded (hwidth : 0 < width) (hn : n < 10 ^ width) : size (zeroPadded width n) = width := by
  rw [size_digits isDigits_zeroPadded, length_zeroPadded hwidth hn]

theorem gives_parseU32 : Gives (parseU32 s) n ↔ digitsValue s < 2 ^ 32 ∧ digitsValue s = n := by
  unfold parseU32 digitsValue
  by_cases h : Nat.ofDigitChars 10 s 0 < 2 ^ 32
  · rw [if_pos h, gives_pure]
    exact ⟨fun heq => ⟨h, heq⟩, And.right⟩
  · rw [if_neg h]
    exact ⟨fun hgives => absurd hgives not_gives_throw, fun hlt => absurd hlt.1 h⟩

theorem not_panics_parseU32 : ¬ Panics (parseU32 s) := by
  unfold parseU32
  by_cases h : Nat.ofDigitChars 10 s 0 < 2 ^ 32
  · rw [if_pos h]
    exact not_panics_pure
  · rw [if_neg h]
    exact not_panics_throw

variable {expected : String}

theorem gives_parseDigits : Gives (parseDigits s expected) n ↔
    (s ≠ [] ∧ IsDigits s) ∧ digitsValue s < 2 ^ 32 ∧ digitsValue s = n := by
  unfold parseDigits
  rw [gives_bind, isDigits_iff, ← gives_parseU32]
  constructor
  · intro ⟨u, hdigits, hvalue⟩
    exact ⟨gives_require.mp hdigits, hvalue⟩
  · intro ⟨hdigits, hvalue⟩
    exact ⟨(), gives_require.mpr hdigits, hvalue⟩

theorem not_panics_parseDigits : ¬ Panics (parseDigits s expected) := by
  unfold parseDigits
  rw [panics_bind]
  rintro (h | ⟨u, -, h⟩)
  · exact not_panics_require h
  · exact not_panics_parseU32 h

theorem eq_zeroPadded_of_size (hne : s ≠ []) (h : IsDigits s) (hsize : size s = width) :
    s = zeroPadded width (digitsValue s) := by
  rw [← hsize, size_digits h]
  exact eq_zeroPadded h hne

theorem gives_parseDigits_zeroPadded {m : Nat} (hwidth : 0 < width) (hm : m < 10 ^ width) (hbig : 10 ^ width ≤ 2 ^ 32) :
    Gives (parseDigits (zeroPadded width m) expected) n ↔ m = n := by
  rw [gives_parseDigits, digitsValue_zeroPadded]
  constructor
  · exact fun h => h.2.2
  · intro h
    refine ⟨⟨?_, isDigits_zeroPadded⟩, by omega, h⟩
    intro hnil
    have hlength := length_zeroPadded hwidth hm
    rw [hnil] at hlength
    exact absurd hlength.symm (Nat.ne_of_gt hwidth)

end Digits

/-! ## Dates -/

section Dates

variable {s y m d : List Char}

theorem ymd_shape (hsize : size s = 10) (h₄ : byteAt s 4 = some (ascii '-')) (h₇ : byteAt s 7 = some (ascii '-')) :
    ∃ y m d, s = y ++ '-' :: (m ++ '-' :: d) ∧ size y = 4 ∧ size m = 2 ∧ size d = 2 := by
  obtain ⟨y, rest, rfl, hy⟩ := split_of_byteAt (by decide) h₄
  have hdash : size ['-'] = 1 := by decide
  have hrest : byteAt rest 2 = some (ascii '-') := by
    have happend := @byteAt_append (y ++ ['-']) rest 2
    rw [size_append, hy, hdash, List.append_assoc, List.singleton_append] at happend
    rw [← happend]
    exact h₇
  obtain ⟨m, d, rfl, hm⟩ := split_of_byteAt (by decide) hrest
  refine ⟨y, m, d, rfl, hy, hm, ?_⟩
  simp only [size_append, size_cons] at hsize hdash
  simp only [size_nil] at hdash
  omega

theorem ymd_slices (hy : size y = 4) (hm : size m = 2) (hd : size d = 2) :
    slice? (y ++ '-' :: (m ++ '-' :: d)) 0 4 = some y ∧
    slice? (y ++ '-' :: (m ++ '-' :: d)) 5 7 = some m ∧
    slice? (y ++ '-' :: (m ++ '-' :: d)) 8 10 = some d := by
  have hdash : size ['-'] = 1 := by decide
  refine ⟨?_, ?_, ?_⟩
  · exact @slice?_append 0 [] y _ 4 rfl (by omega)
  · have hmiddle := @slice?_append 5 (y ++ ['-']) m ('-' :: d) 7 (by simp only [size_append]; omega) (by omega)
    simpa using hmiddle
  · have hlast := @slice?_append 8 (y ++ '-' :: (m ++ ['-'])) d [] 10 (by
        have hcons : size ('-' :: (m ++ ['-'])) = size ['-'] + (size m + size ['-']) := by simp
        rw [size_append, hcons]
        omega)
      (by omega)
    simpa using hlast

theorem ymd_checks (hy : size y = 4) (hm : size m = 2) (hd : size d = 2) : size (y ++ '-' :: (m ++ '-' :: d)) = 10 ∧
    byteAt (y ++ '-' :: (m ++ '-' :: d)) 4 = some (ascii '-') ∧
    byteAt (y ++ '-' :: (m ++ '-' :: d)) 7 = some (ascii '-') := by
  have hdash : Char.utf8Size '-' = 1 := by decide
  refine ⟨?_, byteAt_append_cons (by decide) hy, ?_⟩
  · simp only [size_append, size_cons]
    omega
  · have hlater := @byteAt_append_cons 7 (y ++ '-' :: m) d '-' (by decide) (by simp only [size_append, size_cons]; omega)
    simpa using hlater

theorem date_lt (d : Date) : d.month < 100 ∧ d.day < 100 := by
  obtain ⟨-, hmonth, -, hday⟩ := d.isDate
  have hlength := (Civil.monthLength_bounds d.year d.month).2
  omega

theorem formatDate_of_nonneg {d : Date} (h : 0 ≤ d.year) :
    formatDate d = zeroPadded 4 d.year.toNat ++ '-' :: (zeroPadded 2 d.month ++ '-' :: zeroPadded 2 d.day) := by
  unfold formatDate zeroPaddedInt
  rw [if_neg (by omega)]

theorem date_sizes {d : Date} (h : 0 ≤ d.year) :
    size (zeroPadded 4 d.year.toNat) = 4 ∧ size (zeroPadded 2 d.month) = 2 ∧ size (zeroPadded 2 d.day) = 2 := by
  have hyear := d.inRange.2
  exact ⟨size_zeroPadded (by decide) (by omega), size_zeroPadded (by decide) (date_lt d).1,
    size_zeroPadded (by decide) (date_lt d).2⟩

theorem size_formatDate {d : Date} (h : 0 ≤ d.year) : size (formatDate d) = 10 := by
  obtain ⟨hy, hm, hd⟩ := date_sizes h
  rw [formatDate_of_nonneg h]
  exact (ymd_checks hy hm hd).1

theorem gives_parseYmd {date : Date} : Gives (parseYmd s) date ↔ 0 ≤ date.year ∧ s = formatDate date := by
  unfold parseYmd
  simp only [gives_bind, gives_require, gives_expectByte, gives_slice]
  constructor
  · rintro ⟨_, hsize, _, h₄, _, h₇, ys, hys, year, hyear, ms, hms, month, hmonth, ds, hds, day, hday, hdate⟩
    obtain ⟨y, m, d, rfl, hy, hm, hd⟩ := ymd_shape hsize h₄ h₇
    obtain ⟨hsy, hsm, hsd⟩ := ymd_slices hy hm hd
    rw [hsy, Option.some.injEq] at hys
    rw [hsm, Option.some.injEq] at hms
    rw [hsd, Option.some.injEq] at hds
    subst hys hms hds
    obtain ⟨⟨hyne, hydigits⟩, -, rfl⟩ := gives_parseDigits.mp hyear
    obtain ⟨⟨hmne, hmdigits⟩, -, rfl⟩ := gives_parseDigits.mp hmonth
    obtain ⟨⟨hdne, hddigits⟩, -, rfl⟩ := gives_parseDigits.mp hday
    obtain ⟨hyear, hmonth, hday⟩ := Date.new?_eq_some_iff.mp (gives_orOutOfRange.mp hdate)
    have hnonneg : 0 ≤ date.year := by omega
    refine ⟨hnonneg, ?_⟩
    have hvalue : date.year.toNat = digitsValue y := by omega
    rw [formatDate_of_nonneg hnonneg, hvalue, hmonth, hday, ← eq_zeroPadded_of_size hyne hydigits hy,
      ← eq_zeroPadded_of_size hmne hmdigits hm, ← eq_zeroPadded_of_size hdne hddigits hd]
  · rintro ⟨hnonneg, hs⟩
    subst hs
    obtain ⟨hy, hm, hd⟩ := date_sizes hnonneg
    rw [formatDate_of_nonneg hnonneg]
    obtain ⟨hsize, h₄, h₇⟩ := ymd_checks hy hm hd
    obtain ⟨hsy, hsm, hsd⟩ := ymd_slices hy hm hd
    have hyear := date.inRange.2
    refine ⟨(), hsize, (), h₄, (), h₇, _, hsy, _,
      (gives_parseDigits_zeroPadded (by decide) (by omega) (by decide)).mpr rfl, _, hsm, _,
      (gives_parseDigits_zeroPadded (by decide) (date_lt date).1 (by decide)).mpr rfl, _, hsd, _,
      (gives_parseDigits_zeroPadded (by decide) (date_lt date).2 (by decide)).mpr rfl, ?_⟩
    refine gives_orOutOfRange.mpr (Date.new?_eq_some_iff.mpr ⟨?_, rfl, rfl⟩)
    omega

theorem not_panics_parseYmd : ¬ Panics (parseYmd s) := by
  unfold parseYmd
  simp only [panics_bind, gives_require, gives_expectByte, gives_slice, panics_expectByte, panics_slice,
    not_panics_require, not_panics_parseDigits, false_or]
  rintro ⟨_, hsize, hpanic | ⟨_, h₄, hpanic | ⟨_, h₇, hpanic⟩⟩⟩
  · omega
  · omega
  · obtain ⟨y, m, d, rfl, hy, hm, hd⟩ := ymd_shape hsize h₄ h₇
    obtain ⟨hsy, hsm, hsd⟩ := ymd_slices hy hm hd
    rw [hsy, hsm, hsd] at hpanic
    rcases hpanic with hpanic | ⟨_, _, _, _, hpanic | ⟨_, _, _, _, hpanic | ⟨_, _, _, _, hpanic⟩⟩⟩
    · cases hpanic
    · cases hpanic
    · cases hpanic
    · exact not_panics_orOutOfRange hpanic

end Dates

end Clock

namespace Clock

def checkedMul (a b : Nat) : Option Nat := if a * b < 2 ^ 64 then some (a * b) else none

def checkedAdd (a b : Nat) : Option Nat := if a + b < 2 ^ 64 then some (a + b) else none

def fromParts (weeks days hours minutes seconds nanoseconds : Nat) : Option Duration :=
  if h : nanoseconds < 1000000000 then do
    let w ← checkedMul weeks 7
    let days ← checkedAdd w days
    let hoursSeconds ← checkedMul hours 3600
    let minutesSeconds ← checkedMul minutes 60
    let hm ← checkedAdd hoursSeconds minutesSeconds
    let seconds ← checkedAdd hm seconds
    return ⟨days, seconds, nanoseconds, h⟩
  else none

/-- What `u64` holds of days and of seconds. -/
def Fits (d : Duration) : Prop := d.days < 2 ^ 64 ∧ d.seconds < 2 ^ 64

def isZero (d : Duration) : Bool := d.days = 0 ∧ d.seconds = 0 ∧ d.nanoseconds = 0

/-- A duration before an anchor or after it.  Zero is after it. -/
structure SignedDuration where
  negative : Bool
  magnitude : Duration
  zero_positive : isZero magnitude = true → negative = false
  deriving DecidableEq

namespace SignedDuration

def after (magnitude : Duration) : SignedDuration := ⟨false, magnitude, fun _ => rfl⟩

def before (magnitude : Duration) : SignedDuration := ⟨!isZero magnitude, magnitude, fun h => by rw [h]; rfl⟩

end SignedDuration

/-! ## Writing -/

/-- A number and its unit, unless the number is zero. -/
def formatUnit (n : Nat) (unit : Char) : List Char := if 0 < n then decimal n ++ [unit] else []

def formatSeconds (seconds nanoseconds : Nat) : List Char :=
  if 0 < seconds ∨ 0 < nanoseconds then decimal seconds ++ (formatFraction nanoseconds ++ ['S']) else []

def formatTime (seconds nanoseconds : Nat) : List Char :=
  formatUnit (seconds / 3600) 'H' ++
    (formatUnit (seconds % 3600 / 60) 'M' ++ formatSeconds (seconds % 60) nanoseconds)

def formatDuration (d : Duration) : List Char :=
  if isZero d then "PT0S".toList
  else
    'P' :: (formatUnit d.days 'D' ++
      if 0 < d.seconds ∨ 0 < d.nanoseconds then 'T' :: formatTime d.seconds d.nanoseconds else [])

def formatSignedDuration (d : SignedDuration) : List Char :=
  if d.negative then '-' :: formatDuration d.magnitude else formatDuration d.magnitude

/-! ## Reading -/

def malformedDuration (s : List Char) : TimeError := .malformed "ISO 8601 duration" (String.ofList s)

def parseUint (s : List Char) : Parsed Nat := do
  require (s ≠ [] ∧ s.all Char.isDigit) (.malformed "duration number" (String.ofList s))
  orOutOfRange (if digitsValue s < 2 ^ 64 then some (digitsValue s) else none)

/-- What stands before the first letter, the letter, and what follows it. -/
def splitUnit : List Char → Option (List Char × Char × List Char)
  | [] => none
  | c :: rest =>
    if c.isAlpha then some ([], c, rest)
    else (splitUnit rest).map fun (num, unit, tail) => (c :: num, unit, tail)

variable {s num tail : List Char} {unit : Char}

theorem splitUnit_eq_some_iff : splitUnit s = some (num, unit, tail) ↔
      s = num ++ unit :: tail ∧ unit.isAlpha = true ∧ ∀ c ∈ num, c.isAlpha = false := by
  induction s generalizing num with
  | nil => simp [splitUnit]
  | cons c rest ih =>
    rw [splitUnit]
    by_cases hc : c.isAlpha = true
    · rw [if_pos hc]
      constructor
      · intro h
        cases h
        exact ⟨rfl, hc, by simp⟩
      · intro ⟨hs, hunit, hnum⟩
        cases num with
        | nil =>
          cases hs
          rfl
        | cons d num =>
          cases hs
          have hfirst := hnum c List.mem_cons_self
          rw [hc] at hfirst
          cases hfirst
    · rw [if_neg hc]
      constructor
      · intro h
        obtain ⟨⟨num', unit', tail'⟩, hsplit, heq⟩ := Option.map_eq_some_iff.mp h
        cases heq
        obtain ⟨rfl, hunit, hnum⟩ := ih.mp hsplit
        exact ⟨rfl, hunit, List.forall_mem_cons.mpr ⟨by simpa using hc, hnum⟩⟩
      · intro ⟨hs, hunit, hnum⟩
        cases num with
        | nil =>
          cases hs
          exact absurd hunit hc
        | cons d num =>
          cases hs
          have hsplit := ih.mpr ⟨rfl, hunit, fun d hd => hnum d (List.mem_cons_of_mem c hd)⟩
          rw [hsplit]
          rfl

theorem length_of_splitUnit (h : splitUnit s = some (num, unit, tail)) : tail.length < s.length := by
  obtain ⟨rfl, -, -⟩ := splitUnit_eq_some_iff.mp h
  rw [List.length_append, List.length_cons]
  omega

def dateOrder (s : List Char) (unit : Char) : Parsed Int :=
  if unit = 'W' then pure 0
  else if unit = 'D' then pure 1
  else throw (malformedDuration s)

def dateUnits (s : List Char) (weeks days : Nat) (lastOrder : Int) (rest : List Char) : Parsed (Nat × Nat) :=
  if rest = [] then pure (weeks, days)
  else
    match _h : splitUnit rest with
    | none => throw (malformedDuration rest)
    | some (num, unit, tail) => do
      let order ← dateOrder s unit
      require (lastOrder < order) (malformedDuration s)
      let value ← parseUint num
      if unit = 'W' then dateUnits s value days order tail else dateUnits s weeks value order tail
termination_by rest.length
decreasing_by all_goals exact length_of_splitUnit _h

def parseDateUnits (s : List Char) : Parsed (Nat × Nat) := dateUnits s 0 0 (-1) s

def timeOrder (s : List Char) (unit : Char) : Parsed Int :=
  if unit = 'H' then pure 0
  else if unit = 'M' then pure 1
  else if unit = 'S' then pure 2
  else throw (malformedDuration s)

def parseSeconds (num : List Char) : Parsed (Nat × Nat) :=
  match splitAtFirst ['.'] num with
  | none => do
    let seconds ← parseUint num
    return (seconds, 0)
  | some (whole, frac) => do
    let seconds ← parseUint whole
    let nanos ← parseSubsecond frac
    return (seconds, nanos)

def timeUnits (s : List Char) (hours minutes seconds nanos : Nat) (lastOrder : Int) (rest : List Char) :
    Parsed (Nat × Nat × Nat × Nat) :=
  if rest = [] then pure (hours, minutes, seconds, nanos)
  else
    match _h : splitUnit rest with
    | none => throw (malformedDuration rest)
    | some (num, unit, tail) => do
      let order ← timeOrder s unit
      require (lastOrder < order) (malformedDuration s)
      if unit = 'H' then do
        let hours ← parseUint num
        timeUnits s hours minutes seconds nanos order tail
      else if unit = 'M' then do
        let minutes ← parseUint num
        timeUnits s hours minutes seconds nanos order tail
      else do
        let (seconds, nanos) ← parseSeconds num
        timeUnits s hours minutes seconds nanos order tail
termination_by rest.length
decreasing_by all_goals exact length_of_splitUnit _h

def parseTimeUnits (s : List Char) : Parsed (Nat × Nat × Nat × Nat) := timeUnits s 0 0 0 0 (-1) s

def splitTime (s rest : List Char) : Parsed (List Char × Option (List Char)) :=
  match splitAtFirst ['T'] rest with
  | some (_, []) => throw (malformedDuration s)
  | some (date, time) => pure (date, some time)
  | none => pure (rest, none)

def parseTimePart : Option (List Char) → Parsed (Nat × Nat × Nat × Nat)
  | some time => parseTimeUnits time
  | none => pure (0, 0, 0, 0)

def parseDuration (s : List Char) : Parsed Duration :=
  match stripFront ['P'] s with
  | none => throw (malformedDuration s)
  | some rest => do
    require (rest ≠ []) (malformedDuration s)
    let (datePart, timePart) ← splitTime s rest
    let (weeks, days) ← parseDateUnits datePart
    let (hours, minutes, seconds, nanos) ← parseTimePart timePart
    orOutOfRange (fromParts weeks days hours minutes seconds nanos)

/-- Whether a sign before the duration is a minus, and the text after the sign. -/
def splitSign : List Char → Bool × List Char
  | '-' :: body => (true, body)
  | '+' :: body => (false, body)
  | s => (false, s)

def parseSignedDuration (s : List Char) : Parsed SignedDuration := do
  let magnitude ← parseDuration (splitSign s).2
  return if (splitSign s).1 then .before magnitude else .after magnitude

end Clock
end SyncEngine
