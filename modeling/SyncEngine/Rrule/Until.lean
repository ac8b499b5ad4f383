import SyncEngine.Clock.WallClock
import SyncEngine.Rrule.Parts

/-!
# The end of a rule read back

An `UNTIL` is a wall clock of whole seconds or a date, which stands for the end of its day.  A year takes four
characters, its sign among them, so it is read back from -999 on.
-/

namespace SyncEngine
namespace Rrule

open Recurrence Utf8
open Clock (size_digits size_zeroPadded date_lt time_lt)

def wholeSecond (t : LocalDateTime) : LocalDateTime :=
  ⟨t.date, t.time.hour, t.time.minute, t.time.second, 0, by have h := t.time.proper; omega⟩

/-- What a written `UNTIL` is read as. -/
def rereadUntil (t : LocalDateTime) : UntilForm → LocalDateTime
  | .date => ⟨t.date, 23, 59, 59, 0, by decide⟩
  | .floating => wholeSecond t
  | .utc instant => wholeSecond (Clock.wallOf instant)

section Plain

def Plain (c : Char) : Prop := isWhiteSpace c = false ∧ c ≠ ';' ∧ c ≠ ','

instance (c : Char) : Decidable (Plain c) := inferInstanceAs (Decidable (_ ∧ _ ∧ _))

theorem plain_of_isDigit {c : Char} (h : c.isDigit = true) : Plain c := by
  have hbounds := digit_bounds h
  refine ⟨?_, ?_, ?_⟩
  · unfold isWhiteSpace
    simp only [Bool.or_eq_false_iff, Bool.and_eq_false_iff, decide_eq_false_iff_not, beq_eq_false_iff_ne]
    omega
  · rintro rfl
    exact absurd h (by decide)
  · rintro rfl
    exact absurd h (by decide)

theorem plain_zeroPaddedInt {width : Nat} {n : Int} : ∀ c ∈ zeroPaddedInt width n, Plain c := by
  intro c hc
  unfold zeroPaddedInt at hc
  split_ifs at hc
  · rcases List.mem_cons.mp hc with rfl | hdigit
    · decide
    · exact plain_of_isDigit (isDigits_zeroPadded c hdigit)
  · exact plain_of_isDigit (isDigits_zeroPadded c hc)

theorem plain_basicDate (date : Date) : ∀ c ∈ basicDate date, Plain c := by
  intro c hc
  rcases List.mem_append.mp hc with hyear | hc
  · exact plain_zeroPaddedInt c hyear
  · rcases List.mem_append.mp hc with hdigit | hdigit
    · exact plain_of_isDigit (isDigits_zeroPadded c hdigit)
    · exact plain_of_isDigit (isDigits_zeroPadded c hdigit)

theorem plain_basicDateTime (t : LocalDateTime) : ∀ c ∈ basicDateTime t, Plain c := by
  intro c hc
  rcases List.mem_append.mp hc with hdate | hc
  · exact plain_basicDate t.date c hdate
  · rcases List.mem_cons.mp hc with rfl | hc
    · decide
    · rcases List.mem_append.mp hc with hdigit | hc
      · exact plain_of_isDigit (isDigits_zeroPadded c hdigit)
      · rcases List.mem_append.mp hc with hdigit | hdigit
        · exact plain_of_isDigit (isDigits_zeroPadded c hdigit)
        · exact plain_of_isDigit (isDigits_zeroPadded c hdigit)

theorem plain_renderUntil (t : LocalDateTime) (form : UntilForm) : ∀ c ∈ renderUntil t form, Plain c := by
  intro c hc
  cases form with
  | date => exact plain_basicDate t.date c hc
  | floating => exact plain_basicDateTime t c hc
  | utc instant =>
    rcases List.mem_append.mp hc with hin | hin
    · exact plain_basicDateTime _ c hin
    · rw [List.mem_singleton.mp hin]
      decide

end Plain

/-! ## Sizes -/

section Sizes

variable {date : Date} {t : LocalDateTime}

theorem size_year (h : -999 ≤ date.year) : size (zeroPaddedInt 4 date.year) = 4 := by
  have hrange := date.inRange
  unfold zeroPaddedInt
  by_cases hneg : date.year < 0
  · have hsign : Char.utf8Size '-' = 1 := by decide
    rw [if_pos hneg, size_cons, size_zeroPadded (by decide) (by omega), hsign]
  · rw [if_neg hneg]
    exact size_zeroPadded (by decide) (by omega)

theorem date_parts (date : Date) : size (zeroPadded 2 date.month) = 2 ∧ size (zeroPadded 2 date.day) = 2 :=
  ⟨size_zeroPadded (by decide) (date_lt date).1, size_zeroPadded (by decide) (date_lt date).2⟩

theorem time_parts (time : Time) : size (zeroPadded 2 time.hour) = 2 ∧
    size (zeroPadded 2 time.minute) = 2 ∧ size (zeroPadded 2 time.second) = 2 := by
  obtain ⟨hh, hm, hs⟩ := time_lt time
  exact ⟨size_zeroPadded (by decide) hh, size_zeroPadded (by decide) hm, size_zeroPadded (by decide) hs⟩

theorem size_basicDate (h : -999 ≤ date.year) : size (basicDate date) = 8 := by
  obtain ⟨hmonth, hday⟩ := date_parts date
  unfold basicDate
  rw [size_append, size_append, size_year h, hmonth, hday]

theorem size_basicDateTime (h : -999 ≤ t.date.year) : size (basicDateTime t) = 15 := by
  obtain ⟨hhour, hminute, hsecond⟩ := time_parts t.time
  have hT : Char.utf8Size 'T' = 1 := by decide
  unfold basicDateTime
  rw [size_append, size_cons, size_append, size_append, size_basicDate h, hhour, hminute, hsecond, hT]

end Sizes

/-! ## Fields -/

section Fields

variable {α : Type} {parse : List Char → Option α} {a : α} {before middle after : List Char} {i j : Nat}

theorem field_append (hi : size before = i) (hj : i + size middle = j) (hne : middle ≠ [])
    (hparse : parse middle = some a) : field parse (before ++ (middle ++ after)) i j = some a := by
  unfold field
  rw [slice?_append hi hj, Option.filter_some_pos (by simpa using hne)]
  exact hparse

theorem zeroPadded_ne_nil {width n : Nat} : zeroPadded width n ≠ [] := by
  rw [zeroPadded_eq]
  exact List.append_ne_nil_of_right_ne_nil _ decimal_ne_nil

theorem zeroPaddedInt_ne_nil {width : Nat} {n : Int} : zeroPaddedInt width n ≠ [] := by
  unfold zeroPaddedInt
  split_ifs
  · exact List.cons_ne_nil _ _
  · exact zeroPadded_ne_nil

theorem fields_basicDate {date : Date} (h : -999 ≤ date.year) (after : List Char) :
    field (parseSigned 32) (basicDate date ++ after) 0 4 = some date.year ∧
    field (parseUnsigned 8) (basicDate date ++ after) 4 6 = some date.month ∧
    field (parseUnsigned 8) (basicDate date ++ after) 6 8 = some date.day := by
  obtain ⟨hmonth, hday⟩ := date_parts date
  obtain ⟨hmonthLt, hdayLt⟩ := date_lt date
  have hrange := date.inRange
  have hyear := size_year h
  unfold basicDate
  refine ⟨?_, ?_, ?_⟩
  · have hfield := @field_append _ (parseSigned 32) date.year [] (zeroPaddedInt 4 date.year)
      (zeroPadded 2 date.month ++ zeroPadded 2 date.day ++ after) 0 4 rfl (by omega) zeroPaddedInt_ne_nil
      (parseSigned_zeroPaddedInt (by norm_num; omega) (by norm_num; omega))
    simpa only [List.nil_append, List.append_assoc] using hfield
  · have hfield := @field_append _ (parseUnsigned 8) date.month (zeroPaddedInt 4 date.year) (zeroPadded 2 date.month)
      (zeroPadded 2 date.day ++ after) 4 6 hyear (by omega) zeroPadded_ne_nil
      (parseUnsigned_zeroPadded (by norm_num; omega))
    simpa only [List.append_assoc] using hfield
  · have hfield := @field_append _ (parseUnsigned 8) date.day
      (zeroPaddedInt 4 date.year ++ zeroPadded 2 date.month) (zeroPadded 2 date.day) after 6 8
      (by rw [size_append]; omega) (by omega) zeroPadded_ne_nil (parseUnsigned_zeroPadded (by norm_num; omega))
    simpa only [List.append_assoc] using hfield

theorem fields_basicDateTime {t : LocalDateTime} (h : -999 ≤ t.date.year) :
    field (parseUnsigned 8) (basicDateTime t) 9 11 = some t.time.hour ∧
    field (parseUnsigned 8) (basicDateTime t) 11 13 = some t.time.minute ∧
    field (parseUnsigned 8) (basicDateTime t) 13 15 = some t.time.second := by
  obtain ⟨hhour, hminute, hsecond⟩ := time_parts t.time
  obtain ⟨hhourLt, hminuteLt, hsecondLt⟩ := time_lt t.time
  have hdate := size_basicDate h
  have hT : Char.utf8Size 'T' = 1 := by decide
  unfold basicDateTime
  refine ⟨?_, ?_, ?_⟩
  · have hfield := @field_append _ (parseUnsigned 8) t.time.hour (basicDate t.date ++ ['T']) (zeroPadded 2 t.time.hour)
      (zeroPadded 2 t.time.minute ++ zeroPadded 2 t.time.second) 9 11
      (by rw [size_append, size_cons, size_nil]; omega) (by omega) zeroPadded_ne_nil
      (parseUnsigned_zeroPadded (by norm_num; omega))
    simpa only [List.append_assoc, List.singleton_append] using hfield
  · have hfield := @field_append _ (parseUnsigned 8) t.time.minute
      (basicDate t.date ++ 'T' :: zeroPadded 2 t.time.hour) (zeroPadded 2 t.time.minute) (zeroPadded 2 t.time.second)
      11 13 (by rw [size_append, size_cons]; omega) (by omega) zeroPadded_ne_nil
      (parseUnsigned_zeroPadded (by norm_num; omega))
    simpa only [List.append_assoc, List.cons_append] using hfield
  · have hfield := @field_append _ (parseUnsigned 8) t.time.second
      (basicDate t.date ++ 'T' :: (zeroPadded 2 t.time.hour ++ zeroPadded 2 t.time.minute)) (zeroPadded 2 t.time.second)
      [] 13 15 (by rw [size_append, size_cons, size_append]; omega) (by omega) zeroPadded_ne_nil
      (parseUnsigned_zeroPadded (by norm_num; omega))
    simpa only [List.append_assoc, List.cons_append, List.append_nil] using hfield

end Fields

/-! ## The whole value -/

section Whole

variable {date : Date} {t : LocalDateTime}

theorem new?_date (date : Date) : Date.new? date.year date.month date.day = some date :=
  Date.new?_eq_some_iff.mpr ⟨rfl, rfl, rfl⟩

theorem untilBody_basicDate (h : -999 ≤ date.year) :
    untilBody (basicDate date) = some ⟨date, 23, 59, 59, 0, by decide⟩ := by
  obtain ⟨hyear, hmonth, hday⟩ := fields_basicDate h []
  rw [List.append_nil] at hyear hmonth hday
  unfold untilBody
  rw [hyear, hmonth, hday]
  show untilTime (basicDate date) date.year date.month date.day = _
  unfold untilTime newLocalDateTime
  rw [if_pos (size_basicDate h), new?_date]
  rfl

theorem untilBody_basicDateTime (h : -999 ≤ t.date.year) : untilBody (basicDateTime t) = some (wholeSecond t) := by
  obtain ⟨hyear, hmonth, hday⟩ := fields_basicDate h
    ('T' :: (zeroPadded 2 t.time.hour ++ (zeroPadded 2 t.time.minute ++ zeroPadded 2 t.time.second)))
  obtain ⟨hhour, hminute, hsecond⟩ := fields_basicDateTime h
  have hsize := size_basicDateTime h
  have hT : byteAt (basicDateTime t) 8 = some (ascii 'T') := byteAt_append_cons (by decide) (size_basicDate h)
  have hproper := t.time.proper
  unfold untilBody
  rw [show basicDateTime t = basicDate t.date ++ _ from rfl, hyear, hmonth, hday]
  show untilTime (basicDateTime t) t.date.year t.date.month t.date.day = _
  unfold untilTime
  rw [if_neg (by omega), if_neg (by simp [hsize, hT]), hhour, hminute, hsecond]
  show newLocalDateTime t.date.year t.date.month t.date.day t.time.hour t.time.minute t.time.second = _
  unfold newLocalDateTime
  rw [new?_date]
  show (if h : _ then _ else _) = _
  rw [dif_pos ⟨hproper.1, hproper.2.1, hproper.2.2.1, by decide⟩]
  rfl

theorem not_zulu_of_isDigit {c : Char} (h : c.isDigit = true) : (decide (c = 'Z') || decide (c = 'z')) = false := by
  have hbounds := digit_bounds h
  simp only [Bool.or_eq_false_iff, decide_eq_false_iff_not]
  constructor
  · rintro rfl
    exact absurd h (by decide)
  · rintro rfl
    exact absurd h (by decide)

/-- Only what is a `Z` is taken off an end that closes in digits. -/
theorem trimEndZulu_digits {front digits : List Char} (hne : digits ≠ []) (h : IsDigits digits) :
    trimEndZulu (front ++ digits) = front ++ digits ∧ trimEndZulu (front ++ digits ++ ['Z']) = front ++ digits := by
  have hkept : (front ++ digits).reverse.dropWhile (fun c => decide (c = 'Z') || decide (c = 'z')) =
      (front ++ digits).reverse := by
    refine dropWhile_of_head fun c hc => ?_
    rw [List.head?_reverse, List.getLast?_append] at hc
    cases hlast : digits.getLast? with
    | none => exact absurd (List.getLast?_eq_none_iff.mp hlast) hne
    | some d =>
      rw [hlast] at hc
      have hsame : d = c := Option.some.inj hc
      rw [← hsame]
      exact not_zulu_of_isDigit (h d (List.mem_of_mem_getLast? hlast))
  unfold trimEndZulu
  constructor
  · rw [hkept, List.reverse_reverse]
  · rw [List.reverse_append, List.reverse_singleton, List.singleton_append, List.dropWhile_cons, if_pos (by decide),
      hkept, List.reverse_reverse]

theorem parseUntil_renderUntil (t : LocalDateTime) {form : UntilForm} (h : -999 ≤ (rereadUntil t form).date.year) :
    parseUntil (renderUntil t form) = .ok (rereadUntil t form) := by
  have htrim := trimChars_of_trimmed (trimmed_of_forall fun c hc => (plain_renderUntil t form c hc).1)
  unfold parseUntil
  rw [htrim]
  have hdateTime : ∀ dt : LocalDateTime, basicDateTime dt = basicDate dt.date ++
      'T' :: (zeroPadded 2 dt.time.hour ++ zeroPadded 2 dt.time.minute) ++ zeroPadded 2 dt.time.second := by
    intro dt
    unfold basicDateTime
    simp only [List.append_assoc, List.cons_append]
  cases form with
  | date =>
    have hzulu := (@trimEndZulu_digits (zeroPaddedInt 4 t.date.year ++ zeroPadded 2 t.date.month)
      (zeroPadded 2 t.date.day) zeroPadded_ne_nil isDigits_zeroPadded).1
    rw [List.append_assoc] at hzulu
    have hrender : renderUntil t .date = basicDate t.date := rfl
    have hbody : trimEndZulu (basicDate t.date) = basicDate t.date := hzulu
    rw [hrender, hbody, @untilBody_basicDate t.date h]
    rfl
  | floating =>
    have hzulu := (@trimEndZulu_digits (basicDate t.date ++
      'T' :: (zeroPadded 2 t.time.hour ++ zeroPadded 2 t.time.minute)) (zeroPadded 2 t.time.second) zeroPadded_ne_nil
      isDigits_zeroPadded).1
    rw [← hdateTime] at hzulu
    have hrender : renderUntil t .floating = basicDateTime t := rfl
    rw [hrender, hzulu, @untilBody_basicDateTime t h]
    rfl
  | utc instant =>
    have hzulu := (@trimEndZulu_digits (basicDate (Clock.wallOf instant).date ++
      'T' :: (zeroPadded 2 (Clock.wallOf instant).time.hour ++ zeroPadded 2 (Clock.wallOf instant).time.minute))
      (zeroPadded 2 (Clock.wallOf instant).time.second) zeroPadded_ne_nil isDigits_zeroPadded).2
    rw [← hdateTime] at hzulu
    have hrender : renderUntil t (.utc instant) = basicDateTime (Clock.wallOf instant) ++ ['Z'] := rfl
    rw [hrender, hzulu, @untilBody_basicDateTime (Clock.wallOf instant) h]
    rfl

end Whole

end Rrule
end SyncEngine
