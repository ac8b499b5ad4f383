import SyncEngine.Library.Panicking
import SyncEngine.Recurrence.Rule
import SyncEngine.Library.Delimited
import SyncEngine.Time

/-!
# Instants and the wall clock of UTC

An instant is what the wall clock of UTC shows, so the two are the same values in the same order.
-/

namespace SyncEngine
namespace Clock

open Utf8

/-!
## Dates and times as text

The parsers look at single bytes of a text and then cut pieces out of it by byte offsets.
-/

/-!
## Parsing that can panic

A parser cuts pieces out of a text by byte offsets and computes with machine integers.  A cut inside a character,
an index past the end and an overflow are panics; everything else is a value or an error.
-/

inductive TimeError where
  | malformed (expected found : String)
  | outOfRange
  | subsecondTooPrecise
  | empty
  | emptyRange
  deriving DecidableEq, Repr

/-- What parsing comes to: nothing where it panics. -/
abbrev Parsed (α : Type) : Type := ExceptT TimeError Option α

section Steps

variable {α : Type}

def orPanic (a : Option α) : Parsed α := ExceptT.mk (a.map .ok)

def orOutOfRange : Option α → Parsed α
  | some a => pure a
  | none => throw .outOfRange

def require (c : Prop) [Decidable c] (e : TimeError) : Parsed Unit := if c then pure () else throw e

end Steps

def slice (s : List Char) (i j : Nat) : Parsed (List Char) := orPanic (slice? s i j)

def index (s : List Char) (i : Nat) : Parsed UInt8 := orPanic (byteAt s i)

def expectByte (s : List Char) (i : Nat) (c : Char) (e : TimeError) : Parsed Unit := do
  let b ← index s i
  require (b = ascii c) e

/-- A product that `u32` holds. -/
def mulU32 (a b : Nat) : Parsed Nat := orPanic (if a * b < 2 ^ 32 then some (a * b) else none)

/-! ## What a parser gives, and where it panics -/

section Outcomes

variable {α β : Type}

def Gives (p : Parsed α) (a : α) : Prop := p.run = some (.ok a)

def Panics (p : Parsed α) : Prop := p.run = none

variable {p : Parsed α} {a : α}

theorem gives_of_toOption (h : p.run.bind Except.toOption = some a) : Gives p a := Panicking.gives_of_toOption h

variable {f : α → Parsed β} {b : β}

theorem gives_bind : Gives (p >>= f) b ↔ ∃ a, Gives p a ∧ Gives (f a) b := Panicking.gives_bind

theorem panics_bind : Panics (p >>= f) ↔ Panics p ∨ ∃ a, Gives p a ∧ Panics (f a) := Panicking.panics_bind

theorem gives_map {f : α → β} : Gives (f <$> p) b ↔ ∃ a, Gives p a ∧ f a = b := by
  rw [map_eq_pure_bind, gives_bind]
  refine exists_congr fun a => and_congr_right fun _ => ?_
  exact ⟨fun h => Except.ok.inj (Option.some.inj h), fun h => by rw [h]; rfl⟩

theorem panics_map {f : α → β} : Panics (f <$> p) ↔ Panics p := Panicking.panics_map

@[simp] theorem gives_pure {b : α} : Gives (pure a : Parsed α) b ↔ a = b :=
  ⟨fun h => Except.ok.inj (Option.some.inj h), fun h => by rw [h]; rfl⟩

@[simp] theorem not_panics_pure : ¬ Panics (pure a : Parsed α) := fun h => nomatch h

variable {e : TimeError}

@[simp] theorem not_gives_throw : ¬ Gives (throw e : Parsed α) a := fun h => nomatch h

@[simp] theorem not_panics_throw : ¬ Panics (throw e : Parsed α) := fun h => nomatch h

variable {o : Option α}

@[simp] theorem gives_orPanic : Gives (orPanic o) a ↔ o = some a := by
  cases o <;> simp [Gives, orPanic]

@[simp] theorem panics_orPanic : Panics (orPanic o) ↔ o = none := by
  cases o <;> simp [Panics, orPanic]

@[simp] theorem gives_orOutOfRange : Gives (orOutOfRange o) a ↔ o = some a := by
  cases o <;> simp [orOutOfRange]

@[simp] theorem not_panics_orOutOfRange : ¬ Panics (orOutOfRange o) := by
  cases o <;> simp [orOutOfRange]

variable {c : Prop}

@[simp] theorem gives_require [Decidable c] {u : Unit} : Gives (require c e) u ↔ c := by
  by_cases h : c <;> simp [require, h]

@[simp] theorem not_panics_require [Decidable c] : ¬ Panics (require c e) := by by_cases h : c <;> simp [require, h]

end Outcomes

section Bytes

variable {s : List Char} {i j : Nat}

@[simp] theorem gives_slice {t : List Char} : Gives (slice s i j) t ↔ slice? s i j = some t := gives_orPanic

@[simp] theorem panics_slice : Panics (slice s i j) ↔ slice? s i j = none := panics_orPanic

@[simp] theorem gives_index {b : UInt8} : Gives (index s i) b ↔ byteAt s i = some b := gives_orPanic

@[simp] theorem panics_index : Panics (index s i) ↔ size s ≤ i := by
  rw [index, panics_orPanic, byteAt, List.getElem?_eq_none_iff, length_bytes]

variable {c : Char} {e : TimeError}

@[simp] theorem gives_expectByte {u : Unit} : Gives (expectByte s i c e) u ↔ byteAt s i = some (ascii c) := by
  unfold expectByte
  rw [gives_bind]
  constructor
  · intro ⟨b, hb, hc⟩
    rw [gives_index] at hb
    rw [gives_require] at hc
    rw [hb, hc]
  · intro h
    exact ⟨_, gives_index.mpr h, gives_require.mpr rfl⟩

@[simp] theorem panics_expectByte : Panics (expectByte s i c e) ↔ size s ≤ i := by
  unfold expectByte
  rw [panics_bind, panics_index]
  constructor
  · intro h
    rcases h with h | ⟨b, -, h⟩
    · exact h
    · exact absurd h not_panics_require
  · exact .inl

variable {a b : Nat}

@[simp] theorem gives_mulU32 {n : Nat} : Gives (mulU32 a b) n ↔ a * b < 2 ^ 32 ∧ a * b = n := by
  unfold mulU32
  rw [gives_orPanic]
  simp

@[simp] theorem panics_mulU32 : Panics (mulU32 a b) ↔ 2 ^ 32 ≤ a * b := by
  unfold mulU32
  rw [panics_orPanic]
  simp

end Bytes

open Recurrence (Date Time LocalDateTime)

def parseU32 (s : List Char) : Parsed Nat :=
  if Nat.ofDigitChars 10 s 0 < 2 ^ 32 then pure (Nat.ofDigitChars 10 s 0) else throw .outOfRange

def parseDigits (s : List Char) (expected : String) : Parsed Nat := do
  require (s ≠ [] ∧ s.all Char.isDigit) (.malformed expected (String.ofList s))
  parseU32 s

/-- `u8` and `Month` hold whatever is a month or a day. -/
def fromCalendarDate (year month day : Nat) : Parsed Date := orOutOfRange (Date.new? year month day)

def parseYmd (s : List Char) : Parsed Date := do
  let malformed := TimeError.malformed "date YYYY-MM-DD" (String.ofList s)
  require (size s = 10) malformed
  expectByte s 4 '-' malformed
  expectByte s 7 '-' malformed
  let year ← parseDigits (← slice s 0 4) "date YYYY-MM-DD"
  let month ← parseDigits (← slice s 5 7) "date YYYY-MM-DD"
  let day ← parseDigits (← slice s 8 10) "date YYYY-MM-DD"
  fromCalendarDate year month day

/-- Multiplies by ten so many times. -/
def scaleNanos : Nat → Nat → Parsed Nat
  | 0, nanos => pure nanos
  | k + 1, nanos => do
    let nanos ← mulU32 nanos 10
    scaleNanos k nanos

/-- Digits past the ninth must be zeros. -/
def checkPrecision (frac : List Char) : Parsed Unit :=
  if 9 < size frac then do
    let rest ← slice frac 9 (size frac)
    require (rest.all (· = '0')) .subsecondTooPrecise
  else pure ()

def parseSubsecond (frac : List Char) : Parsed Nat := do
  require (frac ≠ [] ∧ frac.all Char.isDigit) (.malformed "fractional seconds" (String.ofList frac))
  checkPrecision frac
  let taken := min (size frac) 9
  let nanos ← parseU32 (← slice frac 0 taken)
  scaleNanos (9 - taken) nanos

def parseFraction (s : List Char) (malformed : TimeError) : Parsed Nat :=
  if size s = 8 then pure 0
  else do
    expectByte s 8 '.' malformed
    parseSubsecond (← slice s 9 (size s))

def fromHmsNano (hour minute second nanosecond : Nat) : Parsed Time :=
  orOutOfRange <|
    if h : hour < 24 ∧ minute < 60 ∧ second < 60 ∧ nanosecond < 1000000000 then
      some ⟨hour, minute, second, nanosecond, h⟩
    else none

def parseHms (s : List Char) : Parsed Time := do
  let malformed := TimeError.malformed "time hh:mm:ss[.fff]" (String.ofList s)
  require (8 ≤ size s) malformed
  expectByte s 2 ':' malformed
  expectByte s 5 ':' malformed
  let hour ← parseDigits (← slice s 0 2) "time hh:mm:ss"
  let minute ← parseDigits (← slice s 3 5) "time hh:mm:ss"
  -- whether the offset 8 is one of a character has not been looked at
  let second ← parseDigits (← slice s 6 8) "time hh:mm:ss"
  let nanosecond ← parseFraction s malformed
  fromHmsNano hour minute second nanosecond

def parseWallClock (s : List Char) : Parsed LocalDateTime := do
  let malformed := TimeError.malformed "date-time YYYY-MM-DDThh:mm:ss[.fff]" (String.ofList s)
  require (19 ≤ size s) malformed
  expectByte s 10 'T' malformed
  let date ← parseYmd (← slice s 0 10)
  let time ← parseHms (← slice s 11 (size s))
  return ⟨date, time⟩

/-- The number two digits stand for. -/
def two (hi lo : UInt8) (malformed : TimeError) : Parsed Nat := do
  require ((48 ≤ hi ∧ hi ≤ 57) ∧ 48 ≤ lo ∧ lo ≤ 57) malformed
  return (hi.toNat - 48) * 10 + (lo.toNat - 48)

def offsetSign (b : UInt8) (malformed : TimeError) : Parsed Int :=
  if b = ascii '+' then pure 1 else if b = ascii '-' then pure (-1) else throw malformed

def splitNumericOffset (s : List Char) : Parsed (List Char × Int) := do
  let malformed := TimeError.malformed "RFC 3339 date-time ending in Z or ±hh:mm" (String.ofList s)
  require (6 ≤ size s) malformed
  let start := size s - 6
  let sign ← offsetSign (← index s start) malformed
  expectByte s (start + 3) ':' malformed
  let hours ← two (← index s (start + 1)) (← index s (start + 2)) malformed
  let minutes ← two (← index s (start + 4)) (← index s (start + 5)) malformed
  require (hours ≤ 23 ∧ minutes ≤ 59) .outOfRange
  let body ← slice s 0 start
  return (body, sign * (hours * 60 + minutes))

end Clock

namespace Clock

open Civil
open Recurrence (Date Time LocalDateTime nanosPerDay)

def firstDay : Int := beforeYear (-9999)

theorem rangeNanos_eq : (UtcDateTime.rangeNanos : Int) = (beforeYear 10000 - firstDay) * nanosPerDay := by decide

theorem number_bounds (d : Date) : firstDay ≤ d.number ∧ d.number < beforeYear 10000 := by
  obtain ⟨hstart, hend⟩ := d.isDate.inYear
  have hlow : firstDay ≤ beforeYear d.year := beforeYear_mono d.inRange.1
  have hhigh : beforeYear (d.year + 1) ≤ beforeYear 10000 := beforeYear_mono (by have h := d.inRange.2; omega)
  have hnumber : d.number = dayNumber d.year d.month d.day := rfl
  omega

variable {n : Int}

theorem ofNumber?_isSome (h₀ : firstDay ≤ n) (h₁ : n < beforeYear 10000) : (Date.ofNumber? n).isSome := by
  obtain ⟨hdate, hnumber⟩ := civilOf_spec n
  obtain ⟨hstart, hend⟩ := hdate.inYear
  rw [hnumber] at hstart hend
  have hlow : -9999 ≤ (civilOf n).1 := by
    by_contra hlt
    have hmono : beforeYear ((civilOf n).1 + 1) ≤ firstDay := beforeYear_mono (by omega)
    omega
  have hhigh : (civilOf n).1 ≤ 9999 := by
    by_contra hlt
    have hmono : beforeYear 10000 ≤ beforeYear (civilOf n).1 := beforeYear_mono (by omega)
    omega
  unfold Date.ofNumber? Date.new?
  rw [dif_pos ⟨⟨hlow, hhigh⟩, hdate⟩]
  rfl

def dateOf (n : Int) (h₀ : firstDay ≤ n) (h₁ : n < beforeYear 10000) : Date :=
  (Date.ofNumber? n).get (ofNumber?_isSome h₀ h₁)

theorem dateOf_number {h₀ : firstDay ≤ n} {h₁ : n < beforeYear 10000} : (dateOf n h₀ h₁).number = n :=
  Date.ofNumber?_eq_some_iff.mp (Option.some_get (ofNumber?_isSome h₀ h₁)).symm

/-- The time of day so many nanoseconds after midnight. -/
def timeOf (n : Nat) (h : n < 86400000000000) : Time where
  hour := n / 3600000000000
  minute := n / 60000000000 % 60
  second := n / 1000000000 % 60
  nanosecond := n % 1000000000
  proper := by omega

theorem timeOf_nanos {n : Nat} {h : n < 86400000000000} : (timeOf n h).nanos = n := by
  unfold Time.nanos timeOf
  simp only
  omega

def wallOf (t : UtcDateTime) : LocalDateTime where
  date := dateOf (t.nanos / 86400000000000 + firstDay) (by omega) <| by
    have h := rangeNanos_eq
    have hrange : (t.nanos : Int) < UtcDateTime.rangeNanos := by exact_mod_cast t.inRange
    unfold nanosPerDay at h
    omega
  time := timeOf (t.nanos % 86400000000000) (by omega)

variable (t : UtcDateTime)

theorem wallOf_nanos : (wallOf t).nanos = t.nanos + firstDay * nanosPerDay := by
  unfold LocalDateTime.nanos wallOf
  rw [dateOf_number, timeOf_nanos]
  unfold nanosPerDay
  omega

variable (wall : LocalDateTime)

theorem nanos_bounds : firstDay * nanosPerDay ≤ wall.nanos ∧ wall.nanos < beforeYear 10000 * nanosPerDay := by
  have hdate := number_bounds wall.date
  have htime := wall.time.nanos_bounds
  unfold LocalDateTime.nanos
  unfold nanosPerDay at htime ⊢
  omega

/-- The instant at which the wall clock of UTC shows a time. -/
def utcOf (wall : LocalDateTime) : UtcDateTime where
  nanos := (wall.nanos - firstDay * nanosPerDay).toNat
  inRange := by
    have hbounds := nanos_bounds wall
    have hrange := rangeNanos_eq
    have hmul : (beforeYear 10000 - firstDay) * nanosPerDay =
      beforeYear 10000 * nanosPerDay - firstDay * nanosPerDay := Int.sub_mul _ _ _
    omega

theorem utcOf_nanos : ((utcOf wall).nanos : Int) = wall.nanos - firstDay * nanosPerDay := by
  have hbounds := nanos_bounds wall
  unfold utcOf
  simp only
  omega

@[simp] theorem wallOf_utcOf : wallOf (utcOf wall) = wall := by
  refine LocalDateTime.nanos_injective ?_
  rw [wallOf_nanos, utcOf_nanos]
  omega

@[simp] theorem utcOf_wallOf : utcOf (wallOf t) = t := by
  refine UtcDateTime.nanos_injective ?_
  have hcast : ((utcOf (wallOf t)).nanos : Int) = t.nanos := by
    rw [utcOf_nanos, wallOf_nanos]
    omega
  exact_mod_cast hcast

theorem wallOf_lt_iff {a b : UtcDateTime} : wallOf a < wallOf b ↔ a < b := by
  rw [LocalDateTime.lt_def, UtcDateTime.lt_def, wallOf_nanos, wallOf_nanos]
  omega

/-! ## Parsing -/

/-- The wall clock so many minutes earlier, where there is one. -/
def checkedSub (wall : LocalDateTime) (minutes : Int) : Option UtcDateTime :=
  let nanos : Int := (utcOf wall).nanos - minutes * 60000000000
  if h : 0 ≤ nanos ∧ nanos.toNat < UtcDateTime.rangeNanos then some ⟨nanos.toNat, h.2⟩ else none

def parseLocalDateTime (s : List Char) : Parsed LocalDateTime := parseWallClock s

def parseCalendarDate (s : List Char) : Parsed Date := parseYmd s

def parseUtcDateTime (s : List Char) : Parsed UtcDateTime :=
  match stripBack ['Z'] s with
  | none => throw (.malformed "UTC date-time ending in Z" (String.ofList s))
  | some body => utcOf <$> parseWallClock body

def parseRfc3339 (s : List Char) : Parsed UtcDateTime :=
  match stripBack ['Z'] s with
  | some body => utcOf <$> parseWallClock body
  | none => do
    let (body, offset) ← splitNumericOffset s
    let wall ← parseWallClock body
    orOutOfRange (checkedSub wall offset)

end Clock
end SyncEngine
