import SyncEngine.Google.Events

/-!
# Where reading an event panics

Most cuts are made where a character was found.  Two kinds are not: a time is cut after its seconds, and a line of the
recurrence after its fifth and its sixth byte.  Reading panics where it comes to a text with a character across such a
place, and nowhere else.
-/

namespace SyncEngine
namespace Google

open Panicking

open Utf8

open Panicking (sliceTo sliceFrom slice index find? ofResult orThrow Gives Panics not_panics_bind not_panics_pure
  not_panics_throw panics_bind panics_bind_of_not)
open Recurrence (LocalDateTime CalendarDateTime)
open Clock (StraddlesSeconds)

/-! ## Texts that are cut where something was found -/

def wallText (s : List Char) : List Char :=
  match splitAtFirst ['T'] s with
  | some (date, time) => date ++ 'T' :: time.takeWhile fun c => !isDesignator c
  | none => s

def withoutFraction (s : List Char) : List Char :=
  match splitAtFirst ['.'] s with
  | some (before, fraction) => before ++ fraction.dropWhile Char.isDigit
  | none => s

section Found

variable {s : List Char} {d : Char} {i : Nat}

theorem splitAtFirst_of_find (h : find? (· = d) s = some i) :
    ∃ before after, splitAtFirst [d] s = some (before, after) ∧ s = before ++ d :: after ∧ size before = i := by
  obtain ⟨hsize, c, rest, hrest, hc⟩ := find?_eq_some h
  have hcd : c = d := of_decide_eq_true hc
  have hsplit : s = (s.takeWhile fun c => !decide (c = d)) ++ d :: rest := by
    rw [hcd] at hrest
    rw [← hrest, List.takeWhile_append_dropWhile]
  refine ⟨_, rest, splitAtFirst_eq_some_iff.mpr ⟨hsplit, ?_⟩, hsplit, hsize⟩
  intro b hb heq
  have hnot := List.mem_takeWhile_imp hb
  rw [heq] at hnot
  simp at hnot

theorem splitAtFirst_of_not_found (h : find? (· = d) s = none) : splitAtFirst [d] s = none := by
  apply splitAtFirst_eq_none
  intro c hc heq
  exact of_decide_eq_false (find?_eq_none h hc) heq

theorem stripOffset_eq : stripOffset s = pure (wallText s) := by
  unfold stripOffset wallText
  split
  · rename_i t ht
    obtain ⟨date, time, hsplit, hs, hsize⟩ := splitAtFirst_of_find ht
    have hT : Char.utf8Size 'T' = 1 := by decide
    have hdate : size (date ++ ['T']) = t + 1 := by
      rw [size_append, size_cons, size_nil]
      omega
    have htext : s = (date ++ ['T']) ++ time := by rw [hs, List.append_assoc, List.singleton_append]
    have htime : (sliceFrom s (t + 1) : Reading _) = pure time := by
      rw [htext]
      exact sliceFrom_append hdate
    rw [hsplit, htime, pure_bind]
    dsimp only
    split
    · rename_i off hoff
      obtain ⟨hoffSize, -⟩ := find?_eq_some hoff
      have hwall : s = (date ++ 'T' :: time.takeWhile fun c => !isDesignator c) ++ time.dropWhile fun c => !isDesignator c := by
        rw [List.append_assoc, List.cons_append, List.takeWhile_append_dropWhile]
        exact hs
      have hwallSize : size (date ++ 'T' :: time.takeWhile fun c => !isDesignator c) = t + 1 + off := by
        rw [size_append, size_cons]
        omega
      have hcut := @sliceTo_append GoogleError _ (time.dropWhile fun c => !isDesignator c) _ hwallSize
      rw [← hwall] at hcut
      exact hcut
    · rename_i hoff
      have hall : (time.takeWhile fun c => !isDesignator c) = time := by
        apply List.takeWhile_eq_self_iff.mpr
        intro c hc
        rw [find?_eq_none hoff hc]
        rfl
      rw [hall, ← hs]
  · rename_i ht
    rw [splitAtFirst_of_not_found ht]

theorem stripFractional_eq : stripFractional s = pure (withoutFraction s) := by
  unfold stripFractional withoutFraction
  split
  · rename_i dot hdot
    obtain ⟨before, fraction, hsplit, hs, hsize⟩ := splitAtFirst_of_find hdot
    have hpoint : Char.utf8Size '.' = 1 := by decide
    have hfront : size (before ++ ['.']) = dot + 1 := by
      rw [size_append, size_cons, size_nil]
      omega
    have htext : s = (before ++ ['.']) ++ fraction := by rw [hs, List.append_assoc, List.singleton_append]
    have hfraction : (sliceFrom s (dot + 1) : Reading _) = pure fraction := by
      rw [htext]
      exact sliceFrom_append hfront
    have hbefore : (sliceTo s dot : Reading _) = pure before := by
      rw [hs]
      exact sliceTo_append hsize
    have hdigits : (fun c : Char => !!c.isDigit) = Char.isDigit := by
      funext c
      exact Bool.not_not _
    have hafter : (sliceFrom s (((find? (fun c => !c.isDigit) fraction).map (dot + 1 + ·)).getD (size s)) : Reading _) =
        pure (fraction.dropWhile Char.isDigit) := by
      cases hfind : find? (fun c => !c.isDigit) fraction with
      | some n =>
        obtain ⟨hn, -⟩ := find?_eq_some hfind
        rw [hdigits] at hn
        have hdone : s = (before ++ ['.'] ++ fraction.takeWhile Char.isDigit) ++ fraction.dropWhile Char.isDigit := by
          rw [List.append_assoc _ (fraction.takeWhile Char.isDigit), List.takeWhile_append_dropWhile]
          exact htext
        have hdoneSize : size (before ++ ['.'] ++ fraction.takeWhile Char.isDigit) = dot + 1 + n := by
          rw [size_append, hfront, hn]
        have hcut := @sliceFrom_append GoogleError _ (fraction.dropWhile Char.isDigit) _ hdoneSize
        rw [← hdone] at hcut
        exact hcut
      | none =>
        have hall : ∀ c ∈ fraction, c.isDigit = true := by
          intro c hc
          simpa using find?_eq_none hfind hc
        rw [List.dropWhile_eq_nil_iff.mpr hall]
        have hcut := @sliceFrom_append GoogleError s [] _ rfl
        rw [List.append_nil] at hcut
        exact hcut
    rw [hsplit, hfraction, pure_bind]
    dsimp only
    rw [hbefore, pure_bind, hafter, pure_bind]
  · rename_i hdot
    rw [splitAtFirst_of_not_found hdot]

end Found

/-! ## Times -/

/-- The time of an endpoint, before its zone, is one whose seconds end inside a character. -/
def TimeSplits (value : Json) (key : String) : Prop :=
  ∃ obj raw, value.get key = some obj ∧ obj.optStr "date" = none ∧ obj.optStr "dateTime" = some raw ∧
    StraddlesSeconds (wallText raw.toList)

/-- A text is that of an instant, and in the wall clock before its zone the seconds end inside a character. -/
def InstantStraddles (s : List Char) : Prop :=
  match stripBack ['Z'] s with
  | some body => StraddlesSeconds body
  | none => ∃ split, Clock.Gives (Clock.splitNumericOffset s) split ∧ StraddlesSeconds split.1

def InstantSplits (value : Json) (key : String) : Prop :=
  ∃ raw, value.optStr key = some raw ∧ InstantStraddles (withoutFraction raw.toList)

section Times

variable {value obj : Json} {key : String} {zone : Option String} {s : List Char}

theorem panics_ofParsed {α : Type} {f : Clock.TimeError → GoogleError} {p : Clock.Parsed α} :
    Panics (ofParsed f p) ↔ Clock.Panics p := panics_mapError

theorem panics_parseTimed :
    Panics (parseTimed obj key zone) ↔ ∃ raw, obj.optStr "dateTime" = some raw ∧ StraddlesSeconds (wallText raw.toList) := by
  unfold parseTimed
  rw [panics_bind_of_not not_panics_ofResult]
  refine exists_congr fun raw => and_congr ?_ ?_
  · unfold reqStr
    rw [gives_ofResult]
    cases obj.optStr "dateTime" <;> simp
  · rw [stripOffset_eq, pure_bind, panics_bind, panics_ofParsed]
    constructor
    · intro h
      rcases h with h | ⟨wall, -, h⟩
      · exact Clock.panics_parseWallClock.mp h
      · exact absurd h (not_panics_bind not_panics_ofResult fun _ _ => not_panics_pure)
    · intro h
      exact .inl (Clock.panics_parseWallClock.mpr h)

theorem panics_parseEndpoint : Panics (parseEndpoint value key zone) ↔ TimeSplits value key := by
  unfold parseEndpoint TimeSplits
  split
  · rename_i hnone
    simp [hnone]
  · rename_i obj hobj
    split
    · rename_i date hdate
      constructor
      · intro h
        exact absurd (panics_map.mp h) not_panics_orThrow
      · intro ⟨obj', raw, hobj', hdate', _⟩
        rw [hobj] at hobj'
        cases hobj'
        rw [hdate] at hdate'
        exact nomatch hdate'
    · rename_i hdate
      rw [panics_parseTimed]
      constructor
      · intro ⟨raw, hraw, h⟩
        exact ⟨obj, raw, hobj, hdate, hraw, h⟩
      · intro ⟨obj', raw, hobj', _, hraw, h⟩
        rw [hobj] at hobj'
        cases hobj'
        exact ⟨raw, hraw, h⟩

theorem panics_parseRfc3339 : Clock.Panics (Clock.parseRfc3339 s) ↔ InstantStraddles s := by
  unfold Clock.parseRfc3339 InstantStraddles
  cases stripBack ['Z'] s with
  | some body =>
    dsimp only
    rw [Clock.panics_map, Clock.panics_parseWallClock]
  | none =>
    dsimp only
    rw [Clock.panics_bind, or_iff_right Clock.splitNumericOffset_spec.1]
    refine exists_congr fun split => and_congr_right fun _ => ?_
    rw [Clock.panics_bind, Clock.panics_parseWallClock]
    constructor
    · intro h
      rcases h with h | ⟨wall, -, h⟩
      · exact h
      · exact absurd h Clock.not_panics_orOutOfRange
    · exact .inl

theorem panics_datetime : Panics (datetime value key) ↔ InstantSplits value key := by
  unfold datetime InstantSplits
  split
  · rename_i hnone
    simp [hnone]
  · rename_i raw hraw
    rw [stripFractional_eq, pure_bind, panics_map, panics_ofParsed, panics_parseRfc3339]
    constructor
    · intro h
      exact ⟨raw, hraw, h⟩
    · intro ⟨raw', hraw', h⟩
      rw [hraw] at hraw'
      cases hraw'
      exact h

end Times

/-! ## Recurrence dates -/

section Dates

variable {ε : Type} {value : List Char} {line : Ical.ContentLine}

theorem isAscii_of_allDigits (h : allDigits value = true) : ∀ c ∈ value, c.toNat < 128 := by
  intro c hc
  have hdigit := List.all_eq_true.mp h c hc
  have hle : c.toNat ≤ 57 := by
    have hbounds := Bool.and_eq_true_iff.mp hdigit
    exact of_decide_eq_true hbounds.2
  omega

theorem not_panics_digits {i j : Nat} (hascii : ∀ c ∈ value, c.toNat < 128) (hij : i ≤ j) (hj : j ≤ size value) :
    ¬ Panics (digits value i j) := by
  unfold digits
  rw [slice_of_ascii hascii hij hj, pure_bind]
  exact not_panics_orThrow

theorem not_panics_parseBasicDate : ¬ Panics (parseBasicDate value) := by
  unfold parseBasicDate
  split
  · exact not_panics_throw
  · rename_i h
    have hboth : size value = 8 ∧ allDigits value = true := by simpa using h
    have hascii := isAscii_of_allDigits hboth.2
    apply not_panics_bind (not_panics_digits hascii (by omega) (by omega))
    intro year _
    apply not_panics_bind (not_panics_digits hascii (by omega) (by omega))
    intro month _
    apply not_panics_bind (not_panics_digits hascii (by omega) (by omega))
    intro day _
    exact not_panics_orThrow

/-- A `T` stands alone, so the text can be cut before it and after it. -/
theorem wellFormed_spec : ¬ Panics (wellFormed value) ∧
    (Gives (wellFormed value) true → size value = 15 ∧ ∀ c ∈ value, c.toNat < 128) := by
  unfold wellFormed
  by_cases hsize : size value = 15
  swap
  · rw [if_pos hsize]
    refine ⟨not_panics_pure, fun h => ?_⟩
    exact absurd (gives_pure.mp h) (by decide)
  rw [if_neg (by omega)]
  obtain ⟨b, hb⟩ : ∃ b, byteAt value 8 = some b := by
    cases h : byteAt value 8 with
    | some b => exact ⟨b, rfl⟩
    | none =>
      rw [byteAt, List.getElem?_eq_none_iff, length_bytes] at h
      omega
  have hindex : (index value 8 : Panicking Ical.IcalError UInt8) = pure b := by
    unfold index
    rw [hb]
    rfl
  rw [hindex, pure_bind]
  by_cases hT : b = ascii 'T' ∨ b = ascii 't'
  swap
  · rw [if_pos (by simpa using hT)]
    refine ⟨not_panics_pure, fun h => ?_⟩
    exact absurd (gives_pure.mp h) (by decide)
  rw [if_neg (by simpa using hT.resolve_left)]
  have hsplit : ∃ c date time, value = (date ++ [c]) ++ time ∧ size date = 8 ∧ c.toNat < 128 := by
    cases hT with
    | inl hT =>
      rw [hT] at hb
      obtain ⟨date, time, hvalue, hdate⟩ := split_of_byteAt (by decide) hb
      exact ⟨'T', date, time, by simp [hvalue], hdate, by decide⟩
    | inr hT =>
      rw [hT] at hb
      obtain ⟨date, time, hvalue, hdate⟩ := split_of_byteAt (by decide) hb
      exact ⟨'t', date, time, by simp [hvalue], hdate, by decide⟩
  obtain ⟨c, date, time, hvalue, hdate, hc⟩ := hsplit
  have hto : (sliceTo value 8 : Panicking Ical.IcalError _) = pure date := by
    rw [hvalue, List.append_assoc]
    exact sliceTo_append hdate
  have hfront : size (date ++ [c]) = 9 := by
    rw [size_append, size_cons, utf8Size_of_lt hc, size_nil]
    omega
  have hfrom : (sliceFrom value 9 : Panicking Ical.IcalError _) = pure time := by
    rw [hvalue]
    exact sliceFrom_append hfront
  rw [hto, pure_bind]
  by_cases hdigits : allDigits date = true
  swap
  · rw [if_pos (by simpa using hdigits)]
    refine ⟨not_panics_pure, fun h => ?_⟩
    exact absurd (gives_pure.mp h) (by decide)
  rw [if_neg (by simpa using hdigits), hfrom, pure_bind]
  refine ⟨not_panics_pure, fun h => ⟨hsize, ?_⟩⟩
  have htime := isAscii_of_allDigits (gives_pure.mp h)
  intro d hd
  rw [hvalue, List.mem_append, List.mem_append, List.mem_singleton] at hd
  rcases hd with (hd | hd) | hd
  · exact isAscii_of_allDigits hdigits d hd
  · exact hd ▸ hc
  · exact htime d hd

theorem not_panics_parseBasicLocal : ¬ Panics (parseBasicLocal value) := by
  apply not_panics_bind wellFormed_spec.1
  intro formed hformed
  cases formed with
  | false => exact not_panics_throw
  | true =>
    obtain ⟨hsize, hascii⟩ := wellFormed_spec.2 hformed
    apply not_panics_bind (not_panics_digits hascii (by omega) (by omega))
    intro year _
    apply not_panics_bind (not_panics_digits hascii (by omega) (by omega))
    intro month _
    apply not_panics_bind (not_panics_digits hascii (by omega) (by omega))
    intro day _
    apply not_panics_bind (not_panics_digits hascii (by omega) (by omega))
    intro hour _
    apply not_panics_bind (not_panics_digits hascii (by omega) (by omega))
    intro minute _
    apply not_panics_bind (not_panics_digits hascii (by omega) (by omega))
    intro second _
    exact not_panics_orThrow

theorem not_panics_parseCalendarDateTime : ¬ Panics (parseCalendarDateTime line) := by
  unfold parseCalendarDateTime
  dsimp only
  split
  · exact fun h => not_panics_parseBasicDate (panics_map.mp h)
  · split
    · exact fun h => not_panics_parseBasicLocal (panics_map.mp h)
    · apply not_panics_bind not_panics_parseBasicLocal
      intro wall _
      split
      · exact not_panics_bind not_panics_orThrow fun _ _ => not_panics_pure
      · exact not_panics_pure

theorem not_panics_parseRecurrenceDates : ¬ Panics (parseRecurrenceDates value : Panicking ε _) := by
  unfold parseRecurrenceDates
  split
  · apply not_panics_bind
    · apply not_panics_mapM
      intro entry _
      exact fun h => not_panics_parseCalendarDateTime (panics_toOption.mp h)
    · intro read _
      exact not_panics_pure
  · exact not_panics_pure

theorem parseRecurrenceDates_total : ∃ dates, Gives (parseRecurrenceDates value : Panicking ε _) dates := by
  have hread : ∀ entries : List (List Char), ∀ line : Ical.ContentLine, ∃ read, Gives (entries.mapM fun entry =>
      ((parseCalendarDateTime { line with value := entry }).toOption : Panicking ε _)) read := by
    intro entries line
    induction entries with
    | nil => exact ⟨[], gives_pure.mpr rfl⟩
    | cons entry entries ih =>
      obtain ⟨read, hread⟩ := ih
      obtain ⟨date, hdate⟩ := @gives_toOption Ical.IcalError ε _ _
        (@not_panics_parseCalendarDateTime { line with value := entry })
      refine ⟨date :: read, ?_⟩
      rw [List.mapM_cons]
      refine gives_bind.mpr ⟨date, hdate, ?_⟩
      exact gives_bind.mpr ⟨read, hread, gives_pure.mpr rfl⟩
  unfold parseRecurrenceDates
  split
  · rename_i line _
    obtain ⟨read, hread⟩ := hread (line.value.splitOn ',') line
    exact ⟨_, gives_bind.mpr ⟨read, hread, gives_pure.mpr rfl⟩⟩
  · exact ⟨[], gives_pure.mpr rfl⟩

end Dates

/-! ## Recurrence -/

/-- A character lies across a byte offset of a text. -/
def SplitsAt (s : List Char) (n : Nat) : Prop := n < size s ∧ cutAt? s n = none

def IsRule (line : List Char) : Prop :=
  (stripFront "RRULE:".toList line).isSome ∨ (stripFront "EXRULE:".toList line).isSome

def UnreadableRule (line : List Char) : Prop :=
  match (stripFront "RRULE:".toList line).or (stripFront "EXRULE:".toList line) with
  | some rule => ∃ e, Rrule.parseRrule rule = .error e
  | none => False

/-- A line that is no rule has a character across its fifth or its sixth byte. -/
def LineSplits (line : List Char) : Prop := ¬ IsRule line ∧ (SplitsAt line 6 ∨ SplitsAt line 5)

/-- Such a line comes before any rule that cannot be read. -/
def RecurrenceSplits (value : Json) : Prop :=
  ∃ lines before line after, (value.get "recurrence").bind Json.asArray = some lines ∧
    recurrenceLines lines = before ++ line :: after ∧ LineSplits line ∧
      ∀ l ∈ before, ¬ LineSplits l ∧ ¬ UnreadableRule l

section Recurrence

variable {value : Json} {line : List Char} {name : String} {series : Series}

theorem utf8Size_toUpper (c : Char) : c.toUpper.utf8Size = c.utf8Size := by
  unfold Char.toUpper
  split
  · rename_i h
    have hlower : 97 ≤ c.toNat ∧ c.toNat ≤ 122 := h
    have hupper : c.toUpper.toNat < 128 := by
      unfold Char.toUpper
      rw [dif_pos h]
      show (c.val + ('A'.val - 'a'.val)).toNat < 128
      rw [UInt32.toNat_add]
      have hval : c.val.toNat = c.toNat := rfl
      have hgap : ('A'.val - 'a'.val).toNat = 2 ^ 32 - 32 := by decide
      omega
    have hsize := utf8Size_of_lt hupper
    unfold Char.toUpper at hsize
    rw [dif_pos h] at hsize
    rw [hsize, utf8Size_of_lt (by omega)]
  · rfl

theorem size_upper (s : List Char) : size (Ical.upper s) = size s := by
  induction s with
  | nil => rfl
  | cons c s ih =>
    show size (c.toUpper :: Ical.upper s) = _
    rw [size_cons, size_cons, ih, utf8Size_toUpper]

theorem sliceTo_eq (n : Nat) : (sliceTo line n : Reading _) = orPanic ((cutAt? line n).map Prod.fst) := by
  unfold sliceTo slice slice?
  rw [cutAt?, Option.bind_some, Nat.sub_zero]

theorem panics_startsWithProperty : Panics (startsWithProperty line name) ↔ SplitsAt line name.utf8ByteSize := by
  unfold startsWithProperty SplitsAt
  by_cases hsize : size line ≤ name.utf8ByteSize
  · rw [if_pos hsize]
    constructor
    · intro h
      exact absurd h not_panics_pure
    · intro h
      omega
  · rw [if_neg hsize, sliceTo_eq, panics_bind, panics_orPanic, Option.map_eq_none_iff]
    constructor
    · intro h
      rcases h with h | ⟨front, -, h⟩
      · exact ⟨by omega, h⟩
      · split at h
        · exact absurd h not_panics_pure
        · refine absurd h (not_panics_bind ?_ fun _ _ => not_panics_pure)
          intro hindex
          exact hsize (panics_index.mp hindex)
    · intro h
      exact .inl h.2

theorem startsWithProperty_total (h : ¬ SplitsAt line name.utf8ByteSize) :
    ∃ b, Gives (startsWithProperty line name) b := by
  unfold startsWithProperty
  by_cases hsize : size line ≤ name.utf8ByteSize
  · exact ⟨false, by rw [if_pos hsize]; exact gives_pure.mpr rfl⟩
  · rw [if_neg hsize, sliceTo_eq]
    cases hcut : cutAt? line name.utf8ByteSize with
    | none => exact absurd ⟨by omega, hcut⟩ h
    | some cut =>
      have hindex : ∃ b, (index line name.utf8ByteSize : Reading UInt8) = pure b := by
        unfold index
        cases hbyte : byteAt line name.utf8ByteSize with
        | some b => exact ⟨b, rfl⟩
        | none =>
          rw [byteAt, List.getElem?_eq_none_iff, length_bytes] at hbyte
          exact absurd hbyte hsize
      obtain ⟨b, hb⟩ := hindex
      have hfront : (orPanic ((some cut).map Prod.fst) : Reading (List Char)) = pure cut.1 := rfl
      rw [hfront, pure_bind]
      by_cases hname : Ical.eqIgnoreCase cut.1 name.toList = true
      · rw [if_neg (by simpa using hname), hb, pure_bind]
        exact ⟨_, gives_pure.mpr rfl⟩
      · rw [if_pos (by simpa using hname)]
        exact ⟨false, gives_pure.mpr rfl⟩

theorem cutAt_of_startsWithProperty (h : Gives (startsWithProperty line name) true) {k : Nat}
    (hname : ∀ c ∈ Ical.upper name.toList, c.toNat < 128) (hk : k ≤ name.toList.length) :
    cutAt? line k ≠ none := by
  unfold startsWithProperty at h
  split at h
  · exact absurd (gives_pure.mp h) (by decide)
  · rw [sliceTo_eq, gives_bind] at h
    obtain ⟨front, hfront, h⟩ := h
    rw [gives_orPanic, Option.map_eq_some_iff] at hfront
    obtain ⟨cut, hcut, rfl⟩ := hfront
    have hline := (cutAt?_eq_some_iff.mp hcut).1
    split at h
    · exact absurd (gives_pure.mp h) (by decide)
    · rename_i heq
      have hupper : Ical.upper cut.1 = Ical.upper name.toList := by simpa [Ical.eqIgnoreCase] using heq
      have hsize : size (cut.1.take k) = k := by
        have htake : Ical.upper (cut.1.take k) = (Ical.upper name.toList).take k := by
          rw [← hupper]
          exact List.map_take.symm ▸ rfl
        rw [← size_upper, htake, size_eq_length fun c hc => hname c (List.mem_of_mem_take hc), List.length_take]
        unfold Ical.upper
        rw [List.length_map]
        omega
      have hsplit : line = cut.1.take k ++ (cut.1.drop k ++ cut.2) := by
        rw [← List.append_assoc, List.take_append_drop]
        exact hline
      have hat := @cutAt?_append (cut.1.take k) (cut.1.drop k ++ cut.2)
      rw [hsize, ← hsplit] at hat
      rw [hat]
      exact Option.some_ne_none _

theorem panics_recurrenceDates : Panics (recurrenceDates series line) ↔ SplitsAt line 6 ∨ SplitsAt line 5 := by
  have hdates : ∀ f : Series → CalendarDateTime → Series, ¬ Panics (do
      let dates ← (parseRecurrenceDates line : Reading _)
      return dates.foldl f series) := fun f => not_panics_bind not_panics_parseRecurrenceDates fun _ _ => not_panics_pure
  unfold recurrenceDates
  rw [panics_bind, panics_startsWithProperty]
  have hex : "EXDATE".utf8ByteSize = 6 := by decide
  have hrd : "RDATE".utf8ByteSize = 5 := by decide
  rw [hex]
  constructor
  · intro h
    rcases h with h | ⟨isEx, -, h⟩
    · exact .inl h
    · cases isEx with
      | true => exact absurd h (hdates _)
      | false =>
        rw [if_neg (by decide)] at h
        rcases panics_bind.mp h with h | ⟨isR, -, h⟩
        · rw [panics_startsWithProperty, hrd] at h
          exact .inr h
        · cases isR with
          | true => exact absurd h (hdates _)
          | false => exact absurd h not_panics_pure
  · intro h
    by_cases hsix : SplitsAt line 6
    · exact .inl hsix
    · have hfive : SplitsAt line 5 := h.resolve_left hsix
      obtain ⟨isEx, hisEx⟩ := startsWithProperty_total (hex ▸ hsix)
      cases isEx with
      | true => exact absurd hfive.2 (cutAt_of_startsWithProperty hisEx (by decide) (by decide))
      | false =>
        refine .inr ⟨false, hisEx, ?_⟩
        rw [if_neg (by decide)]
        exact panics_bind.mpr (.inl (panics_startsWithProperty.mpr (hrd ▸ hfive)))

theorem gives_recurrenceDates (h : ¬ (SplitsAt line 6 ∨ SplitsAt line 5)) :
    ∃ series', Gives (recurrenceDates series line) series' := by
  obtain ⟨dates, hdates⟩ := @parseRecurrenceDates_total GoogleError line
  have hex : "EXDATE".utf8ByteSize = 6 := by decide
  have hrd : "RDATE".utf8ByteSize = 5 := by decide
  obtain ⟨isEx, hisEx⟩ := startsWithProperty_total (hex ▸ not_or.mp h |>.1)
  obtain ⟨isR, hisR⟩ := startsWithProperty_total (hrd ▸ not_or.mp h |>.2)
  unfold recurrenceDates
  cases isEx with
  | true =>
    refine ⟨dates.foldl Series.exclude series, gives_bind.mpr ⟨true, hisEx, ?_⟩⟩
    exact gives_bind.mpr ⟨dates, hdates, gives_pure.mpr rfl⟩
  | false =>
    cases isR with
    | true =>
      refine ⟨dates.foldl Series.add series, gives_bind.mpr ⟨false, hisEx, ?_⟩⟩
      refine gives_bind.mpr ⟨true, hisR, ?_⟩
      exact gives_bind.mpr ⟨dates, hdates, gives_pure.mpr rfl⟩
    | false =>
      refine ⟨series, gives_bind.mpr ⟨false, hisEx, ?_⟩⟩
      exact gives_bind.mpr ⟨false, hisR, gives_pure.mpr rfl⟩

theorem uniform_recurrenceLine : Uniform recurrenceLine LineSplits UnreadableRule where
  panics series line := by
    unfold recurrenceLine LineSplits IsRule
    split
    · rename_i rule hrule
      constructor
      · intro h
        exact absurd h (not_panics_bind not_panics_ofResult fun _ _ => not_panics_pure)
      · intro h
        exact absurd (.inl (by rw [hrule]; rfl)) h.1
    · rename_i hrrule
      split
      · rename_i rule hrule
        constructor
        · intro h
          exact absurd h (not_panics_bind not_panics_ofResult fun _ _ => not_panics_pure)
        · intro h
          exact absurd (.inr (by rw [hrule]; rfl)) h.1
      · rename_i hexrule
        rw [panics_recurrenceDates, hrrule, hexrule]
        simp
  gives series line := by
    unfold recurrenceLine LineSplits IsRule UnreadableRule
    split
    · rename_i rule hrule
      rw [hrule]
      cases hparse : Rrule.parseRrule rule with
      | ok parsed => simp [Except.mapError, ofResult, Gives, hparse]
      | error e => simp [Except.mapError, ofResult, Gives, hparse]
    · rename_i hrrule
      split
      · rename_i rule hrule
        rw [hrrule, hrule]
        cases hparse : Rrule.parseRrule rule with
        | ok parsed => simp [Except.mapError, ofResult, Gives, hparse]
        | error e => simp [Except.mapError, ofResult, Gives, hparse]
      · rename_i hexrule
        rw [hrrule, hexrule]
        constructor
        · rintro ⟨series', h⟩
          refine ⟨fun hsplits => ?_, fun h => h⟩
          have hpanics : (recurrenceDates series line).run = none := panics_recurrenceDates.mpr hsplits.2
          unfold Gives at h
          rw [hpanics] at h
          cases h
        · intro h
          apply gives_recurrenceDates
          intro hsplits
          exact h.1 ⟨by simp, hsplits⟩

theorem panics_recurrence : Panics (recurrence value) ↔ RecurrenceSplits value := by
  unfold recurrence RecurrenceSplits
  split
  · rename_i hnone
    simp [hnone]
  · rename_i lines hlines
    have hloop : Panics ((recurrenceLines lines).foldlM recurrenceLine Series.empty) ↔ _ :=
      uniform_recurrenceLine.panics_foldlM
    have hrest : Panics (do
        let series ← (recurrenceLines lines).foldlM recurrenceLine Series.empty
        return if series.rules.isEmpty then none else some series) ↔
        Panics ((recurrenceLines lines).foldlM recurrenceLine Series.empty) := by
      rw [panics_bind]
      exact or_iff_left fun ⟨_, _, h⟩ => not_panics_pure h
    rw [hrest, hloop]
    constructor
    · intro ⟨before, line, after, hsplit, hbad, hbefore⟩
      exact ⟨lines, before, line, after, hlines, hsplit, hbad, hbefore⟩
    · intro ⟨lines', before, line, after, hlines', hsplit, hbad, hbefore⟩
      rw [hlines] at hlines'
      cases hlines'
      exact ⟨before, line, after, hsplit, hbad, hbefore⟩

end Recurrence

/-! ## Events and changed occurrences -/

/-- The key and the `UID` of an event are accepted. -/
def IdsRead (value : Json) (calendar : String) : Prop :=
  ∃ rawId id uid, reqStr value "id" = .ok rawId ∧ eventKey calendar rawId = .ok id ∧ uidOf value rawId = .ok uid

def SeriesReads (value : Json) (calendar : String) : Prop :=
  ∃ seriesId master, reqStr value "recurringEventId" = .ok seriesId ∧ eventKey calendar seriesId = .ok master

def EndpointReads (value : Json) (key : String) (zone : Option String) : Prop := ∃ t, Gives (parseEndpoint value key zone) t

def InstantReads (value : Json) (key : String) : Prop := ∃ t, Gives (datetime value key) t

def TimesSplit (value : Json) (zone : Option String) : Prop :=
  TimeSplits value "start" ∨ EndpointReads value "start" zone ∧ TimeSplits value "end"

def TimesRead (value : Json) (zone : Option String) : Prop :=
  ∃ start finish duration, Gives (parseEndpoint value "start" zone) start ∧
    Gives (parseEndpoint value "end" zone) finish ∧ durationUntil start finish = .ok duration

/-- The first field of an event that is not read splits: a time, an instant, or a line of the recurrence. -/
def EventSplits (value : Json) (calendar : String) (zone : Option String) : Prop :=
  IdsRead value calendar ∧ (TimesSplit value zone ∨ TimesRead value zone ∧
    (InstantSplits value "created" ∨ InstantReads value "created" ∧
      (InstantSplits value "updated" ∨ InstantReads value "updated" ∧ RecurrenceSplits value)))

/-- The first field of an entry that is not read splits.  A cancelled entry has its original start only. -/
def OverrideSplits (value : Json) (calendar : String) (zone : Option String) : Prop :=
  SeriesReads value calendar ∧ (TimeSplits value "originalStartTime" ∨
    EndpointReads value "originalStartTime" zone ∧ isCancelled value = false ∧ TimesSplit value zone)

section Whole

variable {htmlToText : String → String} {value : Json} {calendar : String} {zone : Option String}

theorem mapError_eq_ok {ε ε' α : Type} {f : ε → ε'} {r : Except ε α} {a : α} : r.mapError f = .ok a ↔ r = .ok a := by
  cases r <;> simp [Except.mapError]

theorem not_panics_allConferences : ¬ Panics (allConferences htmlToText value) :=
  not_panics_bind not_panics_conferences fun _ _ => not_panics_addDetected

theorem panics_instants {α : Type} {rest : Option UtcDateTime → Option UtcDateTime → Option Series → Reading α}
    (hrest : ∀ created updated series, ¬ Panics (rest created updated series)) :
    Panics (do
      let created ← datetime value "created"
      let updated ← datetime value "updated"
      let series ← recurrence value
      rest created updated series) ↔
    InstantSplits value "created" ∨ InstantReads value "created" ∧
      (InstantSplits value "updated" ∨ InstantReads value "updated" ∧ RecurrenceSplits value) := by
  have hseries : ∀ created updated, Panics (do
      let series ← recurrence value
      rest created updated series) ↔ RecurrenceSplits value := by
    intro created updated
    rw [panics_bind, panics_recurrence]
    exact or_iff_left fun ⟨series, _, h⟩ => hrest created updated series h
  have hupdated : ∀ created, Panics (do
      let updated ← datetime value "updated"
      let series ← recurrence value
      rest created updated series) ↔
      InstantSplits value "updated" ∨ InstantReads value "updated" ∧ RecurrenceSplits value := by
    intro created
    rw [panics_bind, panics_datetime]
    refine or_congr_right ?_
    unfold InstantReads
    rw [← exists_and_right]
    exact exists_congr fun updated => and_congr_right fun _ => hseries created updated
  rw [panics_bind, panics_datetime]
  refine or_congr_right ?_
  unfold InstantReads
  rw [← exists_and_right]
  exact exists_congr fun created => and_congr_right fun _ => hupdated created

theorem panics_times {α : Type} {f : Clock.TimeError → GoogleError} {rest : CalendarDateTime → Duration → Reading α}
    {after : Prop} (hrest : ∀ start duration, Panics (rest start duration) ↔ after) :
    Panics (do
      let start ← parseEndpoint value "start" zone
      let finish ← parseEndpoint value "end" zone
      let duration ← ofResult ((durationUntil start finish).mapError f)
      rest start duration) ↔ TimesSplit value zone ∨ TimesRead value zone ∧ after := by
  unfold TimesSplit TimesRead EndpointReads
  rw [panics_bind, panics_parseEndpoint, or_assoc]
  refine or_congr_right ?_
  constructor
  · intro ⟨start, hstart, h⟩
    rcases panics_bind.mp h with h | ⟨finish, hfinish, h⟩
    · exact .inl ⟨⟨start, hstart⟩, panics_parseEndpoint.mp h⟩
    · obtain ⟨duration, hduration, h⟩ := (panics_bind_of_not not_panics_ofResult).mp h
      rw [gives_ofResult, mapError_eq_ok] at hduration
      exact .inr ⟨⟨start, finish, duration, hstart, hfinish, hduration⟩, (hrest start duration).mp h⟩
  · intro h
    rcases h with ⟨⟨start, hstart⟩, h⟩ | ⟨⟨start, finish, duration, hstart, hfinish, hduration⟩, h⟩
    · exact ⟨start, hstart, panics_bind.mpr (.inl (panics_parseEndpoint.mpr h))⟩
    · refine ⟨start, hstart, panics_bind.mpr (.inr ⟨finish, hfinish, panics_bind.mpr (.inr ⟨duration, ?_, ?_⟩)⟩)⟩
      · rw [gives_ofResult, mapError_eq_ok]
        exact hduration
      · exact (hrest start duration).mpr h

theorem panics_eventFromJson :
    Panics (eventFromJson htmlToText value calendar zone) ↔ EventSplits value calendar zone := by
  unfold eventFromJson EventSplits IdsRead
  rw [panics_bind_of_not not_panics_ofResult]
  constructor
  · intro ⟨rawId, hrawId, h⟩
    obtain ⟨id, hid, h⟩ := (panics_bind_of_not not_panics_ofResult).mp h
    obtain ⟨uid, huid, h⟩ := (panics_bind_of_not not_panics_ofResult).mp h
    rw [gives_ofResult] at hrawId hid huid
    refine ⟨⟨rawId, id, uid, hrawId, hid, huid⟩, ?_⟩
    refine (panics_times fun start duration => ?_).mp h
    exact panics_instants fun _ _ _ => not_panics_bind not_panics_allConferences fun _ _ => not_panics_pure
  · intro ⟨⟨rawId, id, uid, hrawId, hid, huid⟩, h⟩
    refine ⟨rawId, gives_ofResult.mpr hrawId, ?_⟩
    refine panics_bind.mpr (.inr ⟨id, gives_ofResult.mpr hid, ?_⟩)
    refine panics_bind.mpr (.inr ⟨uid, gives_ofResult.mpr huid, ?_⟩)
    refine (panics_times fun start duration => ?_).mpr h
    exact panics_instants fun _ _ _ => not_panics_bind not_panics_allConferences fun _ _ => not_panics_pure

theorem panics_patchOf : Panics (patchOf value zone) ↔ TimesSplit value zone := by
  unfold patchOf
  have h := @panics_times value zone RecurrenceOverride .badOverrideTimes
    (fun start duration => ofResult ((builderOf value start duration).build.mapError .badOverridePatch)) False
    fun start duration => iff_of_false not_panics_ofResult id
  rw [h]
  simp

theorem panics_pendingOverride : Panics (pendingOverride value calendar zone) ↔ OverrideSplits value calendar zone := by
  unfold pendingOverride OverrideSplits SeriesReads EndpointReads
  have hwhat : Panics (whatOf value zone) ↔ isCancelled value = false ∧ TimesSplit value zone := by
    unfold whatOf
    cases isCancelled value with
    | true => simp
    | false => simp [panics_patchOf]
  have hrest : ∀ (master : ProviderKey) (original : CalendarDateTime), Panics (do
      let what ← whatOf value zone
      return (⟨master, localOf original, what⟩ : PendingOverride)) ↔ isCancelled value = false ∧ TimesSplit value zone := by
    intro master original
    rw [panics_bind, hwhat]
    exact or_iff_left fun ⟨_, _, h⟩ => not_panics_pure h
  rw [panics_bind_of_not not_panics_ofResult]
  constructor
  · intro ⟨seriesId, hseriesId, h⟩
    obtain ⟨master, hmaster, h⟩ := (panics_bind_of_not not_panics_ofResult).mp h
    rw [gives_ofResult] at hseriesId hmaster
    refine ⟨⟨seriesId, master, hseriesId, hmaster⟩, ?_⟩
    rcases panics_bind.mp h with h | ⟨original, horiginal, h⟩
    · exact .inl (panics_parseEndpoint.mp h)
    · exact .inr ⟨⟨original, horiginal⟩, (hrest master original).mp h⟩
  · intro ⟨⟨seriesId, master, hseriesId, hmaster⟩, h⟩
    refine ⟨seriesId, gives_ofResult.mpr hseriesId, ?_⟩
    refine panics_bind.mpr (.inr ⟨master, gives_ofResult.mpr hmaster, ?_⟩)
    rcases h with h | ⟨⟨original, horiginal⟩, h⟩
    · exact panics_bind.mpr (.inl (panics_parseEndpoint.mpr h))
    · exact panics_bind.mpr (.inr ⟨original, horiginal, (hrest master original).mpr h⟩)

end Whole

/-- Reading an object as an event and as a changed occurrence comes to a value or to an error, exactly where in neither
reading the first field that is not read has a character across a place where it is cut. -/
theorem readings_never_panic_iff (htmlToText : String → String) (value : Json) (calendar : String) (zone : Option String) :
    (¬ Panics (eventFromJson htmlToText value calendar zone) ∧ ¬ Panics (pendingOverride value calendar zone)) ↔
      ¬ EventSplits value calendar zone ∧ ¬ OverrideSplits value calendar zone := by
  rw [panics_eventFromJson, panics_pendingOverride]

/-- An all-day event with a line of its recurrence that is none of those the reader knows. -/
def Sample.accented : Json :=
  .obj [("id", .str "standup"), ("start", .obj [("date", .str "2026-07-18")]), ("end", .obj [("date", .str "2026-07-19")]),
    ("recurrence", .arr [.str "X-CAFÉS:1"])]

theorem reading_panics : ¬ ∀ (htmlToText : String → String) (value : Json) (calendar : String) (zone : Option String),
    ¬ Panics (eventFromJson htmlToText value calendar zone) ∧ ¬ Panics (pendingOverride value calendar zone) := by
  intro h
  apply (h id Sample.accented "work" none).1
  unfold Panics
  rw [← Option.isNone_iff_eq_none]
  decide

end Google
end SyncEngine
