import SyncEngine.Clock.WallClock

/-!
# Durations and wall clocks read back

What is written of a duration is read back as the same one, and so is what is written of whatever a text was read
as.  No arithmetic of a parser overflows: a total past `u64` is an error.
-/

namespace SyncEngine
namespace Clock

open Recurrence (Date Time LocalDateTime)

/-! ## Parts -/

section Parts

variable {weeks days hours minutes seconds nanos : Nat} {d : Duration}

theorem checkedMul_eq_some_iff {a b n : Nat} : checkedMul a b = some n ↔ a * b < 2 ^ 64 ∧ a * b = n := by
  unfold checkedMul
  simp only [Option.ite_none_right_eq_some, Option.some.injEq]

theorem checkedAdd_eq_some_iff {a b n : Nat} : checkedAdd a b = some n ↔ a + b < 2 ^ 64 ∧ a + b = n := by
  unfold checkedAdd
  simp only [Option.ite_none_right_eq_some, Option.some.injEq]

theorem fromParts_eq_some_iff : fromParts weeks days hours minutes seconds nanos = some d ↔
    Fits d ∧ d.days = weeks * 7 + days ∧ d.seconds = hours * 3600 + minutes * 60 + seconds ∧ d.nanoseconds = nanos := by
  obtain ⟨dd, ds, dn, hsub⟩ := d
  unfold fromParts Fits
  by_cases h : nanos < 1000000000
  · rw [dif_pos h]
    simp only [Option.bind_eq_bind, Option.bind_eq_some_iff, checkedMul_eq_some_iff, checkedAdd_eq_some_iff,
      Option.pure_def, Option.some.injEq, Duration.mk.injEq]
    constructor
    · rintro ⟨_, ⟨-, rfl⟩, _, ⟨hdays, rfl⟩, _, ⟨-, rfl⟩, _, ⟨-, rfl⟩, _, ⟨-, rfl⟩, _, ⟨hseconds, rfl⟩, rfl, rfl, rfl⟩
      exact ⟨⟨hdays, hseconds⟩, rfl, rfl, rfl⟩
    · rintro ⟨⟨hdays, hseconds⟩, rfl, rfl, rfl⟩
      -- no product and no sum on the way is above the one it goes into
      have hweeks : weeks * 7 < 2 ^ 64 := by omega
      have hhm : hours * 3600 + minutes * 60 < 2 ^ 64 := Nat.lt_of_le_of_lt (Nat.le_add_right _ _) hseconds
      have hh : hours * 3600 < 2 ^ 64 := Nat.lt_of_le_of_lt (Nat.le_add_right _ _) hhm
      have hm : minutes * 60 < 2 ^ 64 := Nat.lt_of_le_of_lt (Nat.le_add_left _ _) hhm
      exact ⟨_, ⟨hweeks, rfl⟩, _, ⟨hdays, rfl⟩, _, ⟨hh, rfl⟩, _, ⟨hm, rfl⟩, _, ⟨hhm, rfl⟩, _, ⟨hseconds, rfl⟩,
        rfl, rfl, rfl⟩
  · rw [dif_neg h]
    constructor
    · intro hnone
      cases hnone
    · rintro ⟨-, -, -, rfl⟩
      exact absurd hsub h

end Parts

/-! ## Numbers and units -/

section Units

variable {s num tail : List Char} {unit : Char} {k n order : Nat}

theorem gives_parseUint : Gives (parseUint s) n ↔ (s ≠ [] ∧ IsDigits s) ∧ digitsValue s < 2 ^ 64 ∧ digitsValue s = n := by
  unfold parseUint
  rw [gives_bind, isDigits_iff]
  simp only [gives_require, gives_orOutOfRange, Option.ite_none_right_eq_some, Option.some.injEq, exists_const]

theorem not_panics_parseUint : ¬ Panics (parseUint s) := by
  unfold parseUint
  rw [panics_bind]
  simp

theorem gives_parseUint_decimal (hn : n < 2 ^ 64) : Gives (parseUint (decimal n)) n :=
  gives_parseUint.mpr ⟨⟨decimal_ne_nil, isDigits_decimal⟩, by rwa [digitsValue_decimal], digitsValue_decimal⟩

theorem not_alpha_of_isDigit {c : Char} (h : c.isDigit = true) : c.isAlpha = false := by
  have hbounds := digit_bounds h
  have hA : 'A'.val.toNat = 65 := rfl
  have ha : 'a'.val.toNat = 97 := rfl
  rw [Char.toNat] at hbounds
  simp only [Char.isAlpha, Char.isUpper, Char.isLower, Bool.or_eq_false_iff, Bool.and_eq_false_iff,
    decide_eq_false_iff_not, ge_iff_le, UInt32.le_iff_toNat_le]
  omega

theorem splitUnit_digits (hnum : IsDigits num) (hunit : unit.isAlpha = true) :
    splitUnit (num ++ unit :: tail) = some (num, unit, tail) :=
  splitUnit_eq_some_iff.mpr ⟨rfl, hunit, fun c hc => not_alpha_of_isDigit (hnum c hc)⟩

end Units

/-! ## The date part -/

section DateUnits

variable {s num tail rest : List Char} {unit : Char} {weeks days k : Nat} {last : Int}

theorem dateUnits_nil : dateUnits s weeks days last [] = pure (weeks, days) := by rw [dateUnits, if_pos rfl]

theorem dateUnits_unit (hsplit : splitUnit rest = some (num, unit, tail)) : dateUnits s weeks days last rest = (do
      let order ← dateOrder s unit
      require (last < order) (malformedDuration s)
      let value ← parseUint num
      if unit = 'W' then dateUnits s value days order tail else dateUnits s weeks value order tail) := by
  have hne : rest ≠ [] := by
    rintro rfl
    cases hsplit
  rw [dateUnits, if_neg hne]
  split
  next hnone =>
    rw [hsplit] at hnone
    cases hnone
  next hsome =>
    rw [hsplit] at hsome
    cases hsome
    rfl

theorem gives_parseDateUnits_formatUnit (hk : k < 2 ^ 64) : Gives (parseDateUnits (formatUnit k 'D')) (0, k) := by
  unfold parseDateUnits formatUnit
  by_cases hpos : 0 < k
  · rw [if_pos hpos, dateUnits_unit (splitUnit_digits isDigits_decimal (by decide))]
    refine gives_bind.mpr ⟨1, gives_pure.mpr rfl, gives_bind.mpr ⟨(), gives_require.mpr (by decide), ?_⟩⟩
    refine gives_bind.mpr ⟨k, gives_parseUint_decimal hk, ?_⟩
    rw [if_neg (by decide), dateUnits_nil]
    exact gives_pure.mpr rfl
  · have hzero : k = 0 := by omega
    rw [if_neg hpos, dateUnits_nil, hzero]
    exact gives_pure.mpr rfl

theorem not_panics_dateOrder : ¬ Panics (dateOrder s unit) := by
  unfold dateOrder
  split_ifs <;> simp

theorem not_panics_dateUnits : ¬ Panics (dateUnits s weeks days last rest) := by
  induction hn : rest.length using Nat.strong_induction_on generalizing weeks days last rest with
  | _ n ih =>
    cases hsplit : splitUnit rest with
    | none =>
      rw [dateUnits]
      split_ifs with hrest
      · exact not_panics_pure
      · split
        next => exact not_panics_throw
        next hsome =>
          rw [hsplit] at hsome
          cases hsome
    | some cut =>
      obtain ⟨num, unit, tail⟩ := cut
      have hlength := length_of_splitUnit hsplit
      have hlater : ∀ {w d : Nat} {o : Int}, ¬ Panics (dateUnits s w d o tail) := fun {w d o} =>
        ih tail.length (by omega) rfl
      rw [dateUnits_unit hsplit, panics_bind]
      rintro (hpanic | ⟨order, -, hpanic⟩)
      · exact not_panics_dateOrder hpanic
      · rcases panics_bind.mp hpanic with hpanic | ⟨_, -, hpanic⟩
        · exact not_panics_require hpanic
        · rcases panics_bind.mp hpanic with hpanic | ⟨value, -, hpanic⟩
          · exact not_panics_parseUint hpanic
          · split_ifs at hpanic
            · exact hlater hpanic
            · exact hlater hpanic

end DateUnits

/-! ## The time part -/

section TimeUnits

variable {s num tail rest : List Char} {unit : Char} {hours minutes seconds nanos k : Nat} {last : Int}
  {r : Nat × Nat × Nat × Nat}

theorem timeUnits_nil : timeUnits s hours minutes seconds nanos last [] = pure (hours, minutes, seconds, nanos) := by
  rw [timeUnits, if_pos rfl]

theorem timeUnits_unit (hsplit : splitUnit rest = some (num, unit, tail)) :
    timeUnits s hours minutes seconds nanos last rest = (do
      let order ← timeOrder s unit
      require (last < order) (malformedDuration s)
      if unit = 'H' then do
        let hours ← parseUint num
        timeUnits s hours minutes seconds nanos order tail
      else if unit = 'M' then do
        let minutes ← parseUint num
        timeUnits s hours minutes seconds nanos order tail
      else do
        let (seconds, nanos) ← parseSeconds num
        timeUnits s hours minutes seconds nanos order tail) := by
  have hne : rest ≠ [] := by
    rintro rfl
    cases hsplit
  rw [timeUnits, if_neg hne]
  split
  next hnone =>
    rw [hsplit] at hnone
    cases hnone
  next hsome =>
    rw [hsplit] at hsome
    cases hsome
    rfl

theorem gives_hours (hk : k < 2 ^ 64) (h : ∀ order ≤ 0, Gives (timeUnits s k minutes seconds nanos order tail) r) :
    Gives (timeUnits s 0 minutes seconds nanos (-1) (formatUnit k 'H' ++ tail)) r := by
  unfold formatUnit
  by_cases hpos : 0 < k
  · rw [if_pos hpos, List.append_assoc, List.singleton_append,
      timeUnits_unit (splitUnit_digits isDigits_decimal (by decide))]
    refine gives_bind.mpr ⟨0, gives_pure.mpr rfl, gives_bind.mpr ⟨(), gives_require.mpr (by decide), ?_⟩⟩
    rw [if_pos rfl]
    exact gives_bind.mpr ⟨k, gives_parseUint_decimal hk, h 0 (by decide)⟩
  · have hzero : k = 0 := by omega
    rw [if_neg hpos, List.nil_append]
    rw [hzero] at h
    exact h (-1) (by decide)

theorem gives_minutes (hk : k < 2 ^ 64) (hlast : last ≤ 0)
    (h : ∀ order ≤ 1, Gives (timeUnits s hours k seconds nanos order tail) r) :
    Gives (timeUnits s hours 0 seconds nanos last (formatUnit k 'M' ++ tail)) r := by
  unfold formatUnit
  by_cases hpos : 0 < k
  · rw [if_pos hpos, List.append_assoc, List.singleton_append,
      timeUnits_unit (splitUnit_digits isDigits_decimal (by decide))]
    refine gives_bind.mpr ⟨1, gives_pure.mpr rfl, gives_bind.mpr ⟨(), gives_require.mpr (by omega), ?_⟩⟩
    rw [if_neg (by decide), if_pos rfl]
    exact gives_bind.mpr ⟨k, gives_parseUint_decimal hk, h 1 (by decide)⟩
  · have hzero : k = 0 := by omega
    rw [if_neg hpos, List.nil_append]
    rw [hzero] at h
    exact h last (by omega)

theorem ne_dot_of_isDigits (h : IsDigits s) : ∀ c ∈ s, c ≠ '.' := by
  intro c hc hdot
  have hdigit := h c hc
  rw [hdot] at hdigit
  cases hdigit

theorem gives_parseSeconds_format (hseconds : seconds < 2 ^ 64) (hnanos : nanos < 10 ^ 9) :
    Gives (parseSeconds (decimal seconds ++ formatFraction nanos)) (seconds, nanos) := by
  unfold parseSeconds formatFraction
  by_cases hzero : nanos = 0
  · rw [if_pos hzero, List.append_nil, splitAtFirst_eq_none (ne_dot_of_isDigits isDigits_decimal), hzero]
    exact gives_bind.mpr ⟨seconds, gives_parseUint_decimal hseconds, gives_pure.mpr rfl⟩
  · rw [if_neg hzero, splitAtFirst_eq_some_iff.mpr ⟨rfl, ne_dot_of_isDigits isDigits_decimal⟩]
    exact gives_bind.mpr ⟨seconds, gives_parseUint_decimal hseconds, gives_bind.mpr
      ⟨nanos, gives_parseSubsecond_trimmed hnanos hzero, gives_pure.mpr rfl⟩⟩

theorem not_alpha_of_formatFraction : ∀ c ∈ formatFraction nanos, c.isAlpha = false := by
  intro c hc
  unfold formatFraction at hc
  split_ifs at hc
  · cases hc
  · rcases List.mem_cons.mp hc with rfl | hdigit
    · rfl
    · exact not_alpha_of_isDigit (isDigits_trimEndZeros isDigits_zeroPadded c hdigit)

theorem gives_secondsUnit (hseconds : seconds < 2 ^ 64) (hnanos : nanos < 10 ^ 9) (hlast : last ≤ 1) :
    Gives (timeUnits s hours minutes 0 0 last (decimal seconds ++ (formatFraction nanos ++ ['S'])))
      (hours, minutes, seconds, nanos) := by
  have hsplit : splitUnit (decimal seconds ++ (formatFraction nanos ++ ['S'])) =
      some (decimal seconds ++ formatFraction nanos, 'S', []) := by
    refine splitUnit_eq_some_iff.mpr ⟨by rw [List.append_assoc], rfl, fun c hc => ?_⟩
    rcases List.mem_append.mp hc with hdigit | hfraction
    · exact not_alpha_of_isDigit (isDigits_decimal c hdigit)
    · exact not_alpha_of_formatFraction c hfraction
  rw [timeUnits_unit hsplit]
  refine gives_bind.mpr ⟨2, gives_pure.mpr rfl, gives_bind.mpr ⟨(), gives_require.mpr (by omega), ?_⟩⟩
  rw [if_neg (by decide), if_neg (by decide)]
  refine gives_bind.mpr ⟨(seconds, nanos), gives_parseSeconds_format hseconds hnanos, ?_⟩
  show Gives (timeUnits s hours minutes seconds nanos 2 []) _
  rw [timeUnits_nil]
  exact gives_pure.mpr rfl

theorem gives_seconds (hseconds : seconds < 2 ^ 64) (hnanos : nanos < 10 ^ 9) (hlast : last ≤ 1) :
    Gives (timeUnits s hours minutes 0 0 last (formatSeconds seconds nanos)) (hours, minutes, seconds, nanos) := by
  unfold formatSeconds
  by_cases hpos : 0 < seconds ∨ 0 < nanos
  · rw [if_pos hpos]
    exact gives_secondsUnit hseconds hnanos hlast
  · have hs : seconds = 0 := by omega
    have hn : nanos = 0 := by omega
    rw [if_neg hpos, timeUnits_nil, hs, hn]
    exact gives_pure.mpr rfl

theorem gives_parseTimeUnits_formatTime (hseconds : seconds < 2 ^ 64) (hnanos : nanos < 10 ^ 9) :
    Gives (parseTimeUnits (formatTime seconds nanos)) (seconds / 3600, seconds % 3600 / 60, seconds % 60, nanos) := by
  unfold parseTimeUnits formatTime
  have hh : seconds / 3600 ≤ seconds := Nat.div_le_self _ _
  have hm : seconds % 3600 / 60 ≤ seconds := (Nat.div_le_self _ _).trans (Nat.mod_le _ _)
  have hs : seconds % 60 ≤ seconds := Nat.mod_le _ _
  exact gives_hours (Nat.lt_of_le_of_lt hh hseconds) fun _ hfirst =>
    gives_minutes (Nat.lt_of_le_of_lt hm hseconds) hfirst fun _ hsecond =>
      gives_seconds (Nat.lt_of_le_of_lt hs hseconds) hnanos hsecond

theorem not_panics_timeOrder : ¬ Panics (timeOrder s unit) := by
  unfold timeOrder
  split_ifs <;> simp

theorem not_panics_parseSeconds : ¬ Panics (parseSeconds num) := by
  unfold parseSeconds
  cases splitAtFirst ['.'] num with
  | none => simp [panics_map, not_panics_parseUint]
  | some cut => simp [panics_bind, panics_map, not_panics_parseUint, not_panics_parseSubsecond]

theorem not_panics_timeUnits : ¬ Panics (timeUnits s hours minutes seconds nanos last rest) := by
  induction hn : rest.length using Nat.strong_induction_on generalizing hours minutes seconds nanos last rest with
  | _ n ih =>
    cases hsplit : splitUnit rest with
    | none =>
      rw [timeUnits]
      split_ifs with hrest
      · exact not_panics_pure
      · split
        next => exact not_panics_throw
        next hsome =>
          rw [hsplit] at hsome
          cases hsome
    | some cut =>
      obtain ⟨num, unit, tail⟩ := cut
      have hlength := length_of_splitUnit hsplit
      have hlater : ∀ {h m sec n : Nat} {o : Int}, ¬ Panics (timeUnits s h m sec n o tail) :=
        fun {h m sec n o} => ih tail.length (by omega) rfl
      rw [timeUnits_unit hsplit, panics_bind]
      rintro (hpanic | ⟨order, -, hpanic⟩)
      · exact not_panics_timeOrder hpanic
      · rcases panics_bind.mp hpanic with hpanic | ⟨_, -, hpanic⟩
        · exact not_panics_require hpanic
        · split_ifs at hpanic
          · rcases panics_bind.mp hpanic with hpanic | ⟨_, -, hpanic⟩
            · exact not_panics_parseUint hpanic
            · exact hlater hpanic
          · rcases panics_bind.mp hpanic with hpanic | ⟨_, -, hpanic⟩
            · exact not_panics_parseUint hpanic
            · exact hlater hpanic
          · rcases panics_bind.mp hpanic with hpanic | ⟨_, -, hpanic⟩
            · exact not_panics_parseSeconds hpanic
            · exact hlater hpanic

end TimeUnits

/-! ## Durations -/

section Whole

variable {s rest date : List Char} {time : Option (List Char)} {d : Duration}

theorem isZero_iff : isZero d = true ↔ d.days = 0 ∧ d.seconds = 0 ∧ d.nanoseconds = 0 := by
  unfold isZero
  rw [decide_eq_true_iff]

theorem gives_parseDuration {weeks days hours minutes seconds nanos : Nat} (hrest : rest ≠ [])
    (hsplit : Gives (splitTime ('P' :: rest) rest) (date, time)) (hdate : Gives (parseDateUnits date) (weeks, days))
    (htime : Gives (parseTimePart time) (hours, minutes, seconds, nanos))
    (hparts : fromParts weeks days hours minutes seconds nanos = some d) : Gives (parseDuration ('P' :: rest)) d := by
  unfold parseDuration
  rw [stripFront_eq_some_iff.mpr (List.singleton_append).symm]
  exact gives_bind.mpr ⟨(), gives_require.mpr hrest, gives_bind.mpr ⟨(date, time), hsplit,
    gives_bind.mpr ⟨(weeks, days), hdate, gives_bind.mpr ⟨(hours, minutes, seconds, nanos), htime,
      gives_orOutOfRange.mpr hparts⟩⟩⟩⟩

theorem fits_of_gives (h : Gives (parseDuration s) d) : Fits d := by
  unfold parseDuration at h
  cases hP : stripFront ['P'] s with
  | none =>
    rw [hP] at h
    exact absurd h not_gives_throw
  | some rest =>
    rw [hP] at h
    obtain ⟨_, -, h⟩ := gives_bind.mp h
    obtain ⟨_, -, h⟩ := gives_bind.mp h
    obtain ⟨_, -, h⟩ := gives_bind.mp h
    obtain ⟨_, -, h⟩ := gives_bind.mp h
    exact (fromParts_eq_some_iff.mp (gives_orOutOfRange.mp h)).1

theorem gives_splitTime {whole c : List Char} (hT : ∀ x ∈ date, x ≠ 'T') (hne : c ≠ []) :
    Gives (splitTime whole (date ++ 'T' :: c)) (date, some c) := by
  unfold splitTime
  obtain ⟨x, l, rfl⟩ := List.exists_cons_of_ne_nil hne
  rw [splitAtFirst_eq_some_iff.mpr ⟨rfl, hT⟩]
  exact gives_pure.mpr rfl

theorem gives_splitTime_none {whole : List Char} (hT : ∀ x ∈ date, x ≠ 'T') :
    Gives (splitTime whole date) (date, none) := by
  unfold splitTime
  rw [splitAtFirst_eq_none hT]
  exact gives_pure.mpr rfl

theorem ne_T_of_formatUnit {n : Nat} : ∀ c ∈ formatUnit n 'D', c ≠ 'T' := by
  intro c hc hT
  subst hT
  unfold formatUnit at hc
  split_ifs at hc
  · rcases List.mem_append.mp hc with hdigit | hletter
    · exact absurd (isDigits_decimal 'T' hdigit) (by decide)
    · exact absurd (List.mem_singleton.mp hletter) (by decide)
  · cases hc

theorem formatUnit_eq_nil {n : Nat} {unit : Char} (h : formatUnit n unit = []) : n = 0 := by
  unfold formatUnit at h
  split_ifs at h with hpos
  · exact absurd h (List.append_ne_nil_of_right_ne_nil _ (List.cons_ne_nil _ _))
  · omega

theorem formatSeconds_eq_nil {n m : Nat} (h : formatSeconds n m = []) : n = 0 ∧ m = 0 := by
  unfold formatSeconds at h
  split_ifs at h with hpos
  · exact absurd h (List.append_ne_nil_of_left_ne_nil decimal_ne_nil _)
  · omega

theorem formatTime_ne_nil {seconds nanos : Nat} (hpos : 0 < seconds ∨ 0 < nanos) : formatTime seconds nanos ≠ [] := by
  intro hnil
  obtain ⟨hhours, hrest⟩ := List.append_eq_nil_iff.mp hnil
  obtain ⟨hminutes, hseconds⟩ := List.append_eq_nil_iff.mp hrest
  have hh := formatUnit_eq_nil hhours
  have hm := formatUnit_eq_nil hminutes
  have hs := formatSeconds_eq_nil hseconds
  omega

theorem gives_parse_formatDuration (hfits : Fits d) : Gives (parseDuration (formatDuration d)) d := by
  have hsub := d.subsecond
  unfold formatDuration
  by_cases hzero : isZero d = true
  · obtain ⟨hdays, hseconds, hnanos⟩ := isZero_iff.mp hzero
    rw [if_pos hzero]
    have hdate : Gives (parseDateUnits []) (0, 0) := by
      unfold parseDateUnits
      rw [dateUnits_nil]
      exact gives_pure.mpr rfl
    have htime : Gives (parseTimePart (some ['0', 'S'])) (0, 0, 0, 0) :=
      @gives_secondsUnit ['0', 'S'] 0 0 0 0 (-1) (by decide) (by decide) (by decide)
    have hsplit : Gives (splitTime "PT0S".toList ([] ++ 'T' :: ['0', 'S'])) ([], some ['0', 'S']) :=
      gives_splitTime (fun _ hx => nomatch hx) (List.cons_ne_nil _ _)
    refine gives_parseDuration (List.cons_ne_nil _ _) hsplit hdate htime ?_
    exact fromParts_eq_some_iff.mpr ⟨hfits, hdays, hseconds, hnanos⟩
  · have hnot : ¬ (d.days = 0 ∧ d.seconds = 0 ∧ d.nanoseconds = 0) := fun h => hzero (isZero_iff.mpr h)
    have hdate := gives_parseDateUnits_formatUnit hfits.1
    rw [if_neg hzero]
    by_cases hpos : 0 < d.seconds ∨ 0 < d.nanoseconds
    · rw [if_pos hpos]
      have htime : Gives (parseTimePart (some (formatTime d.seconds d.nanoseconds)))
          (d.seconds / 3600, d.seconds % 3600 / 60, d.seconds % 60, d.nanoseconds) :=
        gives_parseTimeUnits_formatTime hfits.2 hsub
      refine gives_parseDuration ?_ (gives_splitTime ne_T_of_formatUnit (formatTime_ne_nil hpos)) hdate htime ?_
      · exact List.append_ne_nil_of_right_ne_nil _ (List.cons_ne_nil _ _)
      · refine fromParts_eq_some_iff.mpr ⟨hfits, by omega, by omega, rfl⟩
    · rw [if_neg hpos, List.append_nil]
      have htime : Gives (parseTimePart none) (0, 0, 0, 0) := gives_pure.mpr rfl
      refine gives_parseDuration (fun hnil => ?_) (gives_splitTime_none ne_T_of_formatUnit) hdate htime ?_
      · have hdays := formatUnit_eq_nil hnil
        omega
      · exact fromParts_eq_some_iff.mpr ⟨hfits, by omega, by omega, by omega⟩

theorem not_panics_parseDuration : ¬ Panics (parseDuration s) := by
  unfold parseDuration
  cases stripFront ['P'] s with
  | none => exact not_panics_throw
  | some rest =>
    have hsplit : ¬ Panics (splitTime s rest) := by
      unfold splitTime
      split <;> simp
    have htime : ∀ t, ¬ Panics (parseTimePart t) := by
      intro t
      cases t with
      | none => exact not_panics_pure
      | some t => exact not_panics_timeUnits
    intro hpanic
    rcases panics_bind.mp hpanic with hpanic | ⟨_, -, hpanic⟩
    · exact not_panics_require hpanic
    rcases panics_bind.mp hpanic with hpanic | ⟨_, -, hpanic⟩
    · exact hsplit hpanic
    rcases panics_bind.mp hpanic with hpanic | ⟨_, -, hpanic⟩
    · exact not_panics_dateUnits hpanic
    rcases panics_bind.mp hpanic with hpanic | ⟨_, -, hpanic⟩
    · exact htime _ hpanic
    · exact not_panics_orOutOfRange hpanic

end Whole

/-! ## Signed durations -/

section Signed

variable {s : List Char} {d : SignedDuration}

theorem formatDuration_cons (d : Duration) : ∃ rest, formatDuration d = 'P' :: rest := by
  unfold formatDuration
  by_cases hzero : isZero d = true
  · exact ⟨_, if_pos hzero⟩
  · exact ⟨_, if_neg hzero⟩

theorem before_magnitude (hneg : d.negative = true) : SignedDuration.before d.magnitude = d := by
  obtain ⟨negative, magnitude, hpositive⟩ := d
  simp only at hneg
  subst hneg
  have hnot : isZero magnitude = false := by
    by_contra hne
    exact absurd (hpositive (by simpa using hne)) (by decide)
  simp [SignedDuration.before, hnot]

theorem after_magnitude (hpos : d.negative = false) : SignedDuration.after d.magnitude = d := by
  obtain ⟨negative, magnitude, hpositive⟩ := d
  simp only at hpos
  subst hpos
  rfl

theorem gives_parse_formatSignedDuration (hfits : Fits d.magnitude) :
    Gives (parseSignedDuration (formatSignedDuration d)) d := by
  have hread := gives_parse_formatDuration hfits
  unfold parseSignedDuration formatSignedDuration
  by_cases hneg : d.negative = true
  · rw [if_pos hneg]
    refine gives_bind.mpr ⟨d.magnitude, hread, ?_⟩
    rw [show (splitSign ('-' :: formatDuration d.magnitude)).1 = true from rfl, if_pos rfl, before_magnitude hneg]
    exact gives_pure.mpr rfl
  · rw [if_neg hneg]
    obtain ⟨rest, hrest⟩ := formatDuration_cons d.magnitude
    have hsign : splitSign (formatDuration d.magnitude) = (false, formatDuration d.magnitude) := by
      rw [hrest]
      rfl
    rw [hsign]
    refine gives_bind.mpr ⟨d.magnitude, hread, ?_⟩
    rw [if_neg Bool.false_ne_true, after_magnitude (by simpa using hneg)]
    exact gives_pure.mpr rfl

theorem fits_of_gives_signed (h : Gives (parseSignedDuration s) d) : Fits d.magnitude := by
  obtain ⟨magnitude, hread, h⟩ := gives_bind.mp h
  have hfits := fits_of_gives hread
  rw [gives_pure] at h
  split_ifs at h
  · rw [← h]
    exact hfits
  · rw [← h]
    exact hfits

theorem not_panics_parseSignedDuration : ¬ Panics (parseSignedDuration s) := by
  unfold parseSignedDuration
  rw [panics_bind]
  rintro (hpanic | ⟨_, -, hpanic⟩)
  · exact not_panics_parseDuration hpanic
  · exact not_panics_pure hpanic

end Signed

/-- What is written of a value is read back as it, what is written of a value that was read is read back as it,
and neither the duration parsers nor the fractions of a time panic. -/
theorem durations_wallClocks_round_trip :
    (∀ weeks days hours minutes seconds nanos d, fromParts weeks days hours minutes seconds nanos = some d →
      Gives (parseDuration (formatDuration d)) d ∧
      Gives (parseSignedDuration (formatSignedDuration (.after d))) (.after d) ∧
      Gives (parseSignedDuration (formatSignedDuration (.before d))) (.before d)) ∧
    (∀ dt : LocalDateTime, 0 ≤ dt.date.year → Gives (parseLocalDateTime (formatWallClock dt)) dt) ∧
    (∀ s d, Gives (parseDuration s) d → Gives (parseDuration (formatDuration d)) d) ∧
    (∀ s d, Gives (parseSignedDuration s) d → Gives (parseSignedDuration (formatSignedDuration d)) d) ∧
    (∀ s dt, Gives (parseLocalDateTime s) dt → Gives (parseLocalDateTime (formatWallClock dt)) dt) ∧
    (∀ s, ¬ Panics (parseDuration s) ∧ ¬ Panics (parseSignedDuration s) ∧ ¬ Panics (parseSubsecond s)) ∧
    ∀ s, Panics (parseLocalDateTime s) → StraddlesSeconds s := by
  refine ⟨fun _ _ _ _ _ _ d h => ?_, fun dt hyear => gives_parse_formatWallClock hyear, fun s d h => ?_,
    fun s d h => ?_, fun s dt h => ?_, fun s => ?_, fun s => panics_parseWallClock.mp⟩
  · have hfits := (fromParts_eq_some_iff.mp h).1
    exact ⟨gives_parse_formatDuration hfits, gives_parse_formatSignedDuration hfits,
      gives_parse_formatSignedDuration hfits⟩
  · exact gives_parse_formatDuration (fits_of_gives h)
  · exact gives_parse_formatSignedDuration (fits_of_gives_signed h)
  · exact gives_parse_formatWallClock (year_of_gives h)
  · exact ⟨not_panics_parseDuration, not_panics_parseSignedDuration, not_panics_parseSubsecond⟩

/-- Nine days, an hour and a half and a second and a half. -/
theorem duration_reads_back :
    Gives (parseDuration (formatDuration ⟨9, 5401, 500000000, by decide⟩)) ⟨9, 5401, 500000000, by decide⟩ ∧
      formatDuration ⟨9, 5401, 500000000, by decide⟩ = "P9DT1H30M1.5S".toList :=
  ⟨(durations_wallClocks_round_trip.1 1 2 1 30 1 500000000 ⟨9, 5401, 500000000, by decide⟩ (by decide)).1, by decide⟩

end Clock
end SyncEngine
