import SyncEngine.Clock.Duration

/-!
# Wall clocks and instants as text

What is written of a wall clock with a year from 0 on is read back.  The parsers of dates and times panic on one
kind of text only: a valid date, hour and minute, and then a character that lies across the end of the seconds.
-/

namespace SyncEngine
namespace Clock

/-!
## Reading times back

A time is read from its text, with its fraction trimmed or in full.  The seconds are cut out before the offset
after them has been looked at, and that cut is the only one that can fall inside a character.
-/

open Recurrence (Date Time LocalDateTime)

/-! ## Fractions -/

section Fraction

variable {frac : List Char} {n : Nat}

theorem gives_scaleNanos {k nanos : Nat} (h : nanos * 10 ^ k < 2 ^ 32) : Gives (scaleNanos k nanos) (nanos * 10 ^ k) := by
  induction k generalizing nanos with
  | zero => simp [scaleNanos]
  | succ k ih =>
    have hpow : nanos * 10 ^ (k + 1) = nanos * 10 * 10 ^ k := by rw [Nat.pow_succ, Nat.mul_comm (10 ^ k), Nat.mul_assoc]
    rw [hpow] at h ⊢
    have hstep : nanos * 10 < 2 ^ 32 := by
      have hpos : 0 < 10 ^ k := Nat.pow_pos (by decide)
      exact Nat.lt_of_le_of_lt (Nat.le_mul_of_pos_right _ hpos) h
    unfold scaleNanos
    rw [gives_bind]
    exact ⟨nanos * 10, gives_mulU32.mpr ⟨hstep, rfl⟩, ih h⟩

def fractionNanos (frac : List Char) : Nat := digitsValue (frac.take 9) * 10 ^ (9 - frac.length)

theorem fractionNanos_lt (h : IsDigits frac) : fractionNanos frac < 10 ^ 9 := by
  have htaken : IsDigits (frac.take 9) := fun c hc => h c (List.mem_of_mem_take hc)
  have hvalue := digitsValue_lt htaken
  have hpos : 0 < 10 ^ (9 - frac.length) := Nat.pow_pos (by decide)
  have hmul := Nat.mul_lt_mul_of_pos_right hvalue hpos
  rw [← Nat.pow_add, List.length_take] at hmul
  have hexp : min 9 frac.length + (9 - frac.length) = 9 := by omega
  rwa [hexp] at hmul

theorem slice_dropped (h : IsDigits frac) (hlong : 9 < frac.length) :
    Utf8.slice? frac 9 frac.length = some (frac.drop 9) := by
  have htaken : IsDigits (frac.take 9) := fun c hc => h c (List.mem_of_mem_take hc)
  have hdropped : IsDigits (frac.drop 9) := fun c hc => h c (List.mem_of_mem_drop hc)
  have hright := @Utf8.slice?_append_right 9 (frac.take 9) (frac.drop 9) frac.length
    (by rw [size_digits htaken, List.length_take]; omega)
    (by rw [size_digits hdropped, List.length_drop]; omega)
  rwa [List.take_append_drop] at hright

theorem gives_checkPrecision (h : IsDigits frac) : Gives (checkPrecision frac) () ↔ (frac.drop 9).all (· = '0') := by
  unfold checkPrecision
  rw [size_digits h]
  by_cases hlong : 9 < frac.length
  · rw [if_pos hlong, gives_bind]
    simp only [gives_slice, slice_dropped h hlong, Option.some.injEq, gives_require, exists_eq_left']
  · rw [if_neg hlong, gives_pure, List.drop_eq_nil_of_le (by omega)]
    simp

theorem not_panics_checkPrecision (h : IsDigits frac) : ¬ Panics (checkPrecision frac) := by
  unfold checkPrecision
  rw [size_digits h]
  by_cases hlong : 9 < frac.length
  · rw [if_pos hlong, panics_bind]
    simp [slice_dropped h hlong]
  · rw [if_neg hlong]
    exact not_panics_pure

theorem slice_taken (h : IsDigits frac) : Utf8.slice? frac 0 (min (Utf8.size frac) 9) = some (frac.take 9) := by
  have htaken : IsDigits (frac.take 9) := fun c hc => h c (List.mem_of_mem_take hc)
  have hleft := @Utf8.slice?_append 0 [] (frac.take 9) (frac.drop 9) (min (Utf8.size frac) 9) rfl
    (by rw [size_digits htaken, size_digits h, List.length_take]; omega)
  rwa [List.nil_append, List.take_append_drop] at hleft

theorem gives_scaled (h : IsDigits frac) : Gives (do
      let nanos ← parseU32 (← slice frac 0 (min (Utf8.size frac) 9))
      scaleNanos (9 - min (Utf8.size frac) 9) nanos) (fractionNanos frac) := by
  have hlt := fractionNanos_lt h
  have htaken : IsDigits (frac.take 9) := fun c hc => h c (List.mem_of_mem_take hc)
  have hexp : 9 - min (Utf8.size frac) 9 = 9 - frac.length := by
    rw [size_digits h]
    omega
  have hvalue : digitsValue (frac.take 9) < 2 ^ 32 := by
    have hpos : 0 < 10 ^ (9 - frac.length) := Nat.pow_pos (by decide)
    have hle : digitsValue (frac.take 9) ≤ fractionNanos frac := Nat.le_mul_of_pos_right _ hpos
    omega
  rw [gives_bind]
  refine ⟨frac.take 9, gives_slice.mpr (slice_taken h), gives_bind.mpr ⟨_, gives_parseU32.mpr ⟨hvalue, rfl⟩, ?_⟩⟩
  rw [hexp]
  exact gives_scaleNanos (by unfold fractionNanos at hlt; omega)

theorem gives_parseSubsecond : Gives (parseSubsecond frac) n ↔
    (frac ≠ [] ∧ IsDigits frac) ∧ (frac.drop 9).all (· = '0') ∧ fractionNanos frac = n := by
  unfold parseSubsecond
  rw [gives_bind, isDigits_iff]
  simp only [gives_require]
  constructor
  · rintro ⟨_, hdigits, hrest⟩
    have h := isDigits_iff.mpr hdigits.2
    obtain ⟨u, hprecision, hscaled⟩ := gives_bind.mp hrest
    refine ⟨hdigits, (gives_checkPrecision h).mp hprecision, ?_⟩
    have hgives := gives_scaled h
    unfold Gives at hgives hscaled
    exact Except.ok.inj (Option.some.inj (hgives.symm.trans hscaled))
  · rintro ⟨hdigits, hprecision, hn⟩
    have h := isDigits_iff.mpr hdigits.2
    subst hn
    exact ⟨(), hdigits, gives_bind.mpr ⟨(), (gives_checkPrecision h).mpr hprecision, gives_scaled h⟩⟩

theorem not_panics_parseSubsecond : ¬ Panics (parseSubsecond frac) := by
  unfold parseSubsecond
  rw [panics_bind]
  simp only [gives_require, not_panics_require, false_or]
  rintro ⟨_, hdigits, hpanic⟩
  have h := isDigits_iff.mpr hdigits.2
  rcases panics_bind.mp hpanic with hpanic | ⟨_, -, hpanic⟩
  · exact not_panics_checkPrecision h hpanic
  · have hgives := gives_scaled h
    unfold Gives at hgives
    unfold Panics at hpanic
    rw [hgives] at hpanic
    cases hpanic

theorem gives_parseSubsecond_zeroPadded (hn : n < 10 ^ 9) : Gives (parseSubsecond (zeroPadded 9 n)) n := by
  have hlength := length_zeroPadded (show 0 < 9 by decide) hn
  refine gives_parseSubsecond.mpr ⟨⟨?_, isDigits_zeroPadded⟩, ?_, ?_⟩
  · intro hnil
    rw [hnil] at hlength
    exact absurd hlength (by decide)
  · rw [List.drop_eq_nil_of_le (by omega)]
    rfl
  · unfold fractionNanos
    rw [List.take_of_length_le (by omega), digitsValue_zeroPadded, hlength]
    omega

theorem gives_parseSubsecond_trimmed (hn : n < 10 ^ 9) (hpos : n ≠ 0) :
    Gives (parseSubsecond (trimEndZeros (zeroPadded 9 n))) n := by
  have hlength := length_zeroPadded (show 0 < 9 by decide) hn
  have hle := length_trimEndZeros_le (zeroPadded 9 n)
  have hvalue := digitsValue_trimEndZeros (zeroPadded 9 n)
  rw [digitsValue_zeroPadded, hlength] at hvalue
  refine gives_parseSubsecond.mpr ⟨⟨?_, isDigits_trimEndZeros isDigits_zeroPadded⟩, ?_, ?_⟩
  · refine trimEndZeros_ne_nil ?_
    rw [digitsValue_zeroPadded]
    exact hpos
  · rw [List.drop_eq_nil_of_le (by omega)]
    rfl
  · unfold fractionNanos
    rw [List.take_of_length_le (by omega)]
    exact hvalue

end Fraction

/-! ## Times of day -/

section Hms

variable {s h m after : List Char}

theorem hms_shape (hsize : 8 ≤ Utf8.size s) (h₂ : Utf8.byteAt s 2 = some (Utf8.ascii ':'))
    (h₅ : Utf8.byteAt s 5 = some (Utf8.ascii ':')) :
    ∃ h m after, s = h ++ ':' :: (m ++ ':' :: after) ∧ Utf8.size h = 2 ∧ Utf8.size m = 2 ∧ 2 ≤ Utf8.size after := by
  obtain ⟨h, rest, rfl, hh⟩ := Utf8.split_of_byteAt (by decide) h₂
  have hcolon : Utf8.size [':'] = 1 := by decide
  have hrest : Utf8.byteAt rest 2 = some (Utf8.ascii ':') := by
    have happend := @Utf8.byteAt_append (h ++ [':']) rest 2
    rw [Utf8.size_append, hh, hcolon, List.append_assoc, List.singleton_append] at happend
    rw [← happend]
    exact h₅
  obtain ⟨m, after, rfl, hm⟩ := Utf8.split_of_byteAt (by decide) hrest
  refine ⟨h, m, after, rfl, hh, hm, ?_⟩
  simp only [Utf8.size_append, Utf8.size_cons] at hsize hcolon
  simp only [Utf8.size_nil] at hcolon
  omega

theorem size_hms : Utf8.size (h ++ ':' :: (m ++ ':' :: after)) = Utf8.size h + Utf8.size m + Utf8.size after + 2 := by
  have hcolon : Char.utf8Size ':' = 1 := by decide
  simp only [Utf8.size_append, Utf8.size_cons]
  omega

theorem hms_checks (hh : Utf8.size h = 2) (hm : Utf8.size m = 2) :
    Utf8.byteAt (h ++ ':' :: (m ++ ':' :: after)) 2 = some (Utf8.ascii ':') ∧
    Utf8.byteAt (h ++ ':' :: (m ++ ':' :: after)) 5 = some (Utf8.ascii ':') := by
  have hcolon : Char.utf8Size ':' = 1 := by decide
  refine ⟨Utf8.byteAt_append_cons (by decide) hh, ?_⟩
  have hlater := @Utf8.byteAt_append_cons 5 (h ++ ':' :: m) after ':' (by decide)
    (by simp only [Utf8.size_append, Utf8.size_cons]; omega)
  simpa using hlater

theorem hms_slices (hh : Utf8.size h = 2) (hm : Utf8.size m = 2) :
    Utf8.slice? (h ++ ':' :: (m ++ ':' :: after)) 0 2 = some h ∧
    Utf8.slice? (h ++ ':' :: (m ++ ':' :: after)) 3 5 = some m ∧
    Utf8.slice? (h ++ ':' :: (m ++ ':' :: after)) 6 8 = (Utf8.cutAt? after 2).map Prod.fst := by
  have hcolon : Char.utf8Size ':' = 1 := by decide
  refine ⟨?_, ?_, ?_⟩
  · exact @Utf8.slice?_append 0 [] h _ 2 rfl (by omega)
  · have hmiddle := @Utf8.slice?_append 3 (h ++ [':']) m (':' :: after) 5
      (by simp only [Utf8.size_append, Utf8.size_cons, Utf8.size_nil]; omega) (by omega)
    simpa using hmiddle
  · have hlast := @Utf8.slice?_append_left 6 (h ++ ':' :: (m ++ [':'])) after 8
      (by simp only [Utf8.size_append, Utf8.size_cons, Utf8.size_nil]; omega)
    simpa using hlast

theorem parseFraction_of_size {e : TimeError} (hsize : Utf8.size s = 8) : parseFraction s e = pure 0 := if_pos hsize

theorem not_panics_parseFraction {before : List Char} {e : TimeError} (hbefore : Utf8.size before = 8) :
    ¬ Panics (parseFraction (before ++ after) e) := by
  unfold parseFraction
  by_cases hsize : Utf8.size (before ++ after) = 8
  · rw [if_pos hsize]
    exact not_panics_pure
  · rw [if_neg hsize, panics_bind, panics_expectByte]
    rw [Utf8.size_append] at hsize
    rintro (hpanic | ⟨_, hdot, hpanic⟩)
    · rw [Utf8.size_append] at hpanic
      omega
    · rw [gives_expectByte] at hdot
      have hstart := @Utf8.byteAt_append before after 0
      rw [hbefore, Nat.add_zero, hdot] at hstart
      obtain ⟨none, rest, rfl, hnone⟩ := Utf8.split_of_byteAt (by decide) hstart.symm
      have hempty := Utf8.size_eq_zero hnone
      subst hempty
      rcases panics_bind.mp hpanic with hpanic | ⟨frac, -, hpanic⟩
      · have hdotSize : Char.utf8Size '.' = 1 := by decide
        have hslice := @Utf8.slice?_append_right 9 (before ++ ['.']) rest (Utf8.size (before ++ '.' :: rest))
          (by simp only [Utf8.size_append, Utf8.size_cons, Utf8.size_nil]; omega)
          (by simp only [Utf8.size_append, Utf8.size_cons]; omega)
        rw [List.append_assoc, List.singleton_append] at hslice
        rw [List.nil_append, panics_slice, hslice] at hpanic
        cases hpanic
      · exact not_panics_parseSubsecond hpanic

/-- The place after the seconds lies inside a character, and everything before the seconds is in order. -/
def Straddled (s : List Char) : Prop :=
  ∃ h m after, s = h ++ ':' :: (m ++ ':' :: after) ∧ (h.length = 2 ∧ IsDigits h) ∧ (m.length = 2 ∧ IsDigits m) ∧
    2 ≤ Utf8.size after ∧ Utf8.cutAt? after 2 = none

theorem panics_parseHms : Panics (parseHms s) ↔ Straddled s := by
  unfold parseHms
  simp only [panics_bind, gives_require, gives_expectByte, gives_slice, panics_expectByte, panics_slice,
    not_panics_require, not_panics_parseDigits, false_or]
  constructor
  · rintro ⟨_, hsize, hpanic | ⟨_, h₂, hpanic | ⟨_, h₅, hpanic⟩⟩⟩
    · omega
    · omega
    · obtain ⟨h, m, after, rfl, hh, hm, hafter⟩ := hms_shape hsize h₂ h₅
      obtain ⟨hsh, hsm, hss⟩ := @hms_slices h m after hh hm
      rw [hsh, hsm, hss] at hpanic
      rcases hpanic with hpanic | ⟨_, hth, hour, hhour, hpanic | ⟨_, htm, minute, hminute, hpanic⟩⟩
      · cases hpanic
      · cases hpanic
      · cases hth
        cases htm
        obtain ⟨⟨-, hhdigits⟩, -⟩ := gives_parseDigits.mp hhour
        obtain ⟨⟨-, hmdigits⟩, -⟩ := gives_parseDigits.mp hminute
        rw [size_digits hhdigits] at hh
        rw [size_digits hmdigits] at hm
        refine ⟨h, m, after, rfl, ⟨hh, hhdigits⟩, ⟨hm, hmdigits⟩, hafter, ?_⟩
        rcases hpanic with hpanic | ⟨seconds, hseconds, second, -, hpanic⟩
        · exact Option.map_eq_none_iff.mp hpanic
        · obtain ⟨⟨sec, rest⟩, hcut, rfl⟩ := Option.map_eq_some_iff.mp hseconds
          obtain ⟨hsplit, hsec⟩ := Utf8.cutAt?_eq_some_iff.mp hcut
          simp only at hsplit hsec
          subst hsplit
          have hfraction := @not_panics_parseFraction rest (h ++ ':' :: (m ++ ':' :: sec))
            (.malformed "time hh:mm:ss[.fff]" (String.ofList (h ++ ':' :: (m ++ ':' :: (sec ++ rest)))))
            (by rw [size_hms, size_digits hhdigits, size_digits hmdigits]; omega)
          simp only [List.append_assoc, List.cons_append] at hfraction
          rcases hpanic with hpanic | ⟨_, -, hpanic⟩
          · exact absurd hpanic hfraction
          · exact absurd hpanic not_panics_orOutOfRange
  · rintro ⟨h, m, after, rfl, ⟨hh, hhdigits⟩, ⟨hm, hmdigits⟩, hafter, hcut⟩
    have hhsize : Utf8.size h = 2 := by rw [size_digits hhdigits, hh]
    have hmsize : Utf8.size m = 2 := by rw [size_digits hmdigits, hm]
    obtain ⟨h₂, h₅⟩ := @hms_checks h m after hhsize hmsize
    obtain ⟨hsh, hsm, hss⟩ := @hms_slices h m after hhsize hmsize
    have hsmall : ∀ l : List Char, l.length = 2 → IsDigits l → Gives (parseDigits l "time hh:mm:ss") (digitsValue l) := by
      intro l hl hdigits
      have hvalue := digitsValue_lt hdigits
      rw [hl] at hvalue
      refine gives_parseDigits.mpr ⟨⟨?_, hdigits⟩, by omega, rfl⟩
      rintro rfl
      cases hl
    refine ⟨(), by rw [size_hms]; omega, .inr ⟨(), h₂, .inr ⟨(), h₅, .inr ⟨h, hsh, _, hsmall h hh hhdigits,
      .inr ⟨m, hsm, _, hsmall m hm hmdigits, .inl ?_⟩⟩⟩⟩⟩
    rw [hss, hcut]
    rfl

end Hms

end Clock

namespace Clock

open Recurrence (Date Time LocalDateTime)

/-! ## Reading back what was written -/

section Written

variable {dt : LocalDateTime}

variable (t : Time)

theorem time_lt : t.hour < 100 ∧ t.minute < 100 ∧ t.second < 100 := by
  have hproper := t.proper
  omega

theorem clock_sizes : Utf8.size (zeroPadded 2 t.hour) = 2 ∧ Utf8.size (zeroPadded 2 t.minute) = 2 ∧
    Utf8.size (zeroPadded 2 t.second) = 2 := by
  obtain ⟨hhour, hminute, hsecond⟩ := time_lt t
  exact ⟨size_zeroPadded (by decide) hhour, size_zeroPadded (by decide) hminute, size_zeroPadded (by decide) hsecond⟩

theorem size_formatClock : Utf8.size (formatClock t) = 8 := by
  obtain ⟨hh, hm, hs⟩ := clock_sizes t
  unfold formatClock
  rw [size_hms]
  omega

theorem gives_parseHms {t : Time} {fraction : List Char}
    (hfraction : ∀ e, Gives (parseFraction (formatClock t ++ fraction) e) t.nanosecond) :
    Gives (parseHms (formatClock t ++ fraction)) t := by
  obtain ⟨hh, hm, hs⟩ := clock_sizes t
  obtain ⟨hhour, hminute, hsecond⟩ := time_lt t
  have htext : formatClock t ++ fraction =
      zeroPadded 2 t.hour ++ ':' :: (zeroPadded 2 t.minute ++ ':' :: (zeroPadded 2 t.second ++ fraction)) := by
    simp [formatClock]
  obtain ⟨h₂, h₅⟩ := @hms_checks _ _ (zeroPadded 2 t.second ++ fraction) hh hm
  obtain ⟨hsh, hsm, hss⟩ := @hms_slices _ _ (zeroPadded 2 t.second ++ fraction) hh hm
  have hcut : (Utf8.cutAt? (zeroPadded 2 t.second ++ fraction) 2).map Prod.fst = some (zeroPadded 2 t.second) := by
    have happend := @Utf8.cutAt?_append (zeroPadded 2 t.second) fraction
    rw [hs] at happend
    rw [happend]
    rfl
  rw [hcut] at hss
  rw [← htext] at h₂ h₅ hsh hsm hss
  have hsize : 8 ≤ Utf8.size (formatClock t ++ fraction) := by
    rw [Utf8.size_append, size_formatClock]
    omega
  unfold parseHms
  simp only [gives_bind, gives_require, gives_expectByte, gives_slice]
  refine ⟨(), hsize, (), h₂, (), h₅, _, hsh, _,
    (gives_parseDigits_zeroPadded (by decide) hhour (by decide)).mpr rfl, _, hsm, _,
    (gives_parseDigits_zeroPadded (by decide) hminute (by decide)).mpr rfl, _, hss, _,
    (gives_parseDigits_zeroPadded (by decide) hsecond (by decide)).mpr rfl, _, hfraction _, ?_⟩
  unfold fromHmsNano
  rw [gives_orOutOfRange, dif_pos t.proper]

theorem gives_parseFraction_dot {before frac : List Char} {n : Nat} {e : TimeError}
    (hbefore : Utf8.size before = 8) (hfrac : Gives (parseSubsecond frac) n) :
    Gives (parseFraction (before ++ '.' :: frac) e) n := by
  have hdot : Char.utf8Size '.' = 1 := by decide
  have hsize : Utf8.size (before ++ '.' :: frac) ≠ 8 := by
    simp only [Utf8.size_append, Utf8.size_cons]
    omega
  have hslice := @Utf8.slice?_append_right 9 (before ++ ['.']) frac (Utf8.size (before ++ '.' :: frac))
    (by simp only [Utf8.size_append, Utf8.size_cons, Utf8.size_nil]; omega)
    (by simp only [Utf8.size_append, Utf8.size_cons]; omega)
  rw [List.append_assoc, List.singleton_append] at hslice
  unfold parseFraction
  rw [if_neg hsize]
  simp only [gives_bind, gives_expectByte, gives_slice]
  exact ⟨(), Utf8.byteAt_append_cons (by decide) hbefore, frac, hslice, hfrac⟩

theorem gives_parseHms_trimmed : Gives (parseHms (formatClock t ++ formatFraction t.nanosecond)) t := by
  refine gives_parseHms fun e => ?_
  unfold formatFraction
  by_cases hzero : t.nanosecond = 0
  · rw [if_pos hzero, hzero, List.append_nil, parseFraction_of_size (size_formatClock t)]
    exact gives_pure.mpr rfl
  · rw [if_neg hzero]
    exact gives_parseFraction_dot (size_formatClock t) (gives_parseSubsecond_trimmed t.proper.2.2.2 hzero)

theorem gives_parseHms_fixed : Gives (parseHms (formatClock t ++ '.' :: zeroPadded 9 t.nanosecond)) t :=
  gives_parseHms fun _ =>
    gives_parseFraction_dot (size_formatClock t) (gives_parseSubsecond_zeroPadded t.proper.2.2.2)

theorem wallClock_slices {date time : List Char} (hdate : Utf8.size date = 10) :
    Utf8.byteAt (date ++ 'T' :: time) 10 = some (Utf8.ascii 'T') ∧
    Utf8.slice? (date ++ 'T' :: time) 0 10 = some date ∧
    Utf8.slice? (date ++ 'T' :: time) 11 (Utf8.size (date ++ 'T' :: time)) = some time := by
  have hT : Char.utf8Size 'T' = 1 := by decide
  refine ⟨Utf8.byteAt_append_cons (by decide) hdate, ?_, ?_⟩
  · exact @Utf8.slice?_append 0 [] date _ 10 rfl (by omega)
  · have hright := @Utf8.slice?_append_right 11 (date ++ ['T']) time (Utf8.size (date ++ 'T' :: time))
      (by simp only [Utf8.size_append, Utf8.size_cons, Utf8.size_nil]; omega)
      (by simp only [Utf8.size_append, Utf8.size_cons]; omega)
    simpa using hright

theorem gives_parseWallClock {time : List Char} (hyear : 0 ≤ dt.date.year) (hsize : 8 ≤ Utf8.size time)
    (htime : Gives (parseHms time) dt.time) :
    Gives (parseWallClock (formatDate dt.date ++ 'T' :: time)) dt := by
  have hdate := size_formatDate hyear
  obtain ⟨hT, hsd, hst⟩ := @wallClock_slices _ time hdate
  have hTsize : Char.utf8Size 'T' = 1 := by decide
  unfold parseWallClock
  simp only [gives_bind, gives_require, gives_expectByte, gives_slice, gives_pure]
  refine ⟨(), ?_, (), hT, _, hsd, _, gives_parseYmd.mpr ⟨hyear, rfl⟩, _, hst, _, htime, rfl⟩
  simp only [Utf8.size_append, Utf8.size_cons]
  omega

theorem gives_parse_formatWallClock (hyear : 0 ≤ dt.date.year) : Gives (parseWallClock (formatWallClock dt)) dt := by
  refine gives_parseWallClock hyear ?_ (gives_parseHms_trimmed dt.time)
  rw [Utf8.size_append, size_formatClock]
  omega

theorem gives_parse_formatWallClockFixed (hyear : 0 ≤ dt.date.year) :
    Gives (parseWallClock (formatWallClockFixed dt)) dt := by
  refine gives_parseWallClock hyear ?_ (gives_parseHms_fixed dt.time)
  rw [Utf8.size_append, size_formatClock]
  omega

end Written

/-! ## What is read at all -/

section Read

variable {s : List Char}

theorem wallClock_shape (hsize : 19 ≤ Utf8.size s) (hT : Utf8.byteAt s 10 = some (Utf8.ascii 'T')) :
    ∃ date time, s = date ++ 'T' :: time ∧ Utf8.size date = 10 ∧ 8 ≤ Utf8.size time := by
  obtain ⟨date, time, rfl, hdate⟩ := Utf8.split_of_byteAt (by decide) hT
  refine ⟨date, time, rfl, hdate, ?_⟩
  have hTsize : Char.utf8Size 'T' = 1 := by decide
  simp only [Utf8.size_append, Utf8.size_cons] at hsize
  omega

theorem year_of_gives {dt : LocalDateTime} (h : Gives (parseWallClock s) dt) : 0 ≤ dt.date.year := by
  unfold parseWallClock at h
  simp only [gives_bind, gives_pure] at h
  obtain ⟨_, -, _, -, _, -, date, hdate, _, -, time, -, hdt⟩ := h
  have hyear := (gives_parseYmd.mp hdate).1
  rw [← hdt]
  exact hyear

/-- The text of a date, and after it a time whose seconds end inside a character. -/
def StraddlesSeconds (s : List Char) : Prop :=
  ∃ (d : Date) (time : List Char), 0 ≤ d.year ∧ s = formatDate d ++ 'T' :: time ∧ Straddled time

theorem Straddled.size {time : List Char} (h : Straddled time) : 8 ≤ Utf8.size time := by
  obtain ⟨h, m, after, rfl, ⟨hh, hhdigits⟩, ⟨hm, hmdigits⟩, hafter, -⟩ := h
  rw [size_hms, size_digits hhdigits, size_digits hmdigits]
  omega

theorem panics_parseWallClock : Panics (parseWallClock s) ↔ StraddlesSeconds s := by
  unfold parseWallClock
  simp only [panics_bind, gives_require, gives_expectByte, gives_slice, panics_expectByte, panics_slice,
    not_panics_require, not_panics_parseYmd, not_panics_pure, and_false, exists_false, or_false, false_or]
  constructor
  · rintro ⟨_, hsize, hpanic | ⟨_, hT, hpanic⟩⟩
    · omega
    · obtain ⟨date, time, rfl, hdate, -⟩ := wallClock_shape hsize hT
      obtain ⟨-, hsd, hst⟩ := @wallClock_slices _ time hdate
      rw [hsd, hst] at hpanic
      rcases hpanic with hpanic | ⟨_, hd, d, hread, hpanic | ⟨_, ht, hpanic⟩⟩
      · cases hpanic
      · cases hpanic
      · cases hd
        cases ht
        obtain ⟨hyear, rfl⟩ := gives_parseYmd.mp hread
        exact ⟨d, time, hyear, rfl, panics_parseHms.mp hpanic⟩
  · rintro ⟨d, time, hyear, rfl, hstraddled⟩
    have hdate := size_formatDate hyear
    obtain ⟨hT, hsd, hst⟩ := @wallClock_slices _ time hdate
    have hTsize : Char.utf8Size 'T' = 1 := by decide
    have htime := hstraddled.size
    refine ⟨(), ?_, .inr ⟨(), hT, .inr ⟨_, hsd, d, gives_parseYmd.mpr ⟨hyear, rfl⟩, .inr ⟨_, hst,
      panics_parseHms.mpr hstraddled⟩⟩⟩⟩
    simp only [Utf8.size_append, Utf8.size_cons]
    omega

theorem StraddlesSeconds.append (h : StraddlesSeconds s) (suffix : List Char) : StraddlesSeconds (s ++ suffix) := by
  obtain ⟨d, time, hyear, rfl, h, m, after, rfl, hh, hm, hafter, hcut⟩ := h
  refine ⟨d, h ++ ':' :: (m ++ ':' :: (after ++ suffix)), hyear, by simp, h, m, after ++ suffix, rfl, hh, hm, ?_, ?_⟩
  · rw [Utf8.size_append]
    omega
  · by_contra hsome
    obtain ⟨⟨front, back⟩, hfront⟩ := Option.ne_none_iff_exists'.mp hsome
    obtain ⟨hsplit, hsize⟩ := Utf8.cutAt?_eq_some_iff.mp hfront
    simp only at hsplit hsize
    -- a cut of the longer text within the shorter one is a cut of the shorter one
    rcases List.append_eq_append_iff.mp hsplit with ⟨rest, rfl, -⟩ | ⟨rest, rfl, -⟩
    · rw [Utf8.size_append] at hsize
      have hnil := Utf8.size_eq_zero (show Utf8.size rest = 0 by omega)
      rw [hnil, Utf8.size_nil, Nat.add_zero] at hsize
      have hwhole := @Utf8.cutAt?_append after []
      rw [hsize, List.append_nil, hcut] at hwhole
      cases hwhole
    · have hshort := @Utf8.cutAt?_append front rest
      rw [hsize, hcut] at hshort
      cases hshort

variable {b : UInt8} {e : TimeError}

theorem gives_offsetSign {sign : Int} (h : Gives (offsetSign b e) sign) : b = Utf8.ascii '+' ∨ b = Utf8.ascii '-' := by
  unfold offsetSign at h
  by_cases hplus : b = Utf8.ascii '+'
  · exact .inl hplus
  · rw [if_neg hplus] at h
    by_cases hminus : b = Utf8.ascii '-'
    · exact .inr hminus
    · rw [if_neg hminus] at h
      exact absurd h not_gives_throw

theorem not_panics_offsetSign : ¬ Panics (offsetSign b e) := by
  unfold offsetSign
  split
  · exact not_panics_pure
  · split
    · exact not_panics_pure
    · exact not_panics_throw

theorem not_panics_two {hi lo : UInt8} : ¬ Panics (two hi lo e) := by
  unfold two
  rw [panics_bind]
  rintro (h | ⟨_, -, h⟩)
  · exact not_panics_require h
  · exact not_panics_pure h

/-- A sign is a character of its own, so the text can be cut before it. -/
theorem slice_of_sign {i : Nat} (hb : Utf8.byteAt s i = some b)
    (hsign : b = Utf8.ascii '+' ∨ b = Utf8.ascii '-') : ∃ body suffix, s = body ++ suffix ∧ Utf8.slice? s 0 i = some body := by
  have hsplit : ∃ body c suffix, s = body ++ c :: suffix ∧ Utf8.size body = i := by
    rcases hsign with rfl | rfl
    · obtain ⟨body, suffix, hs, hsize⟩ := Utf8.split_of_byteAt (by decide) hb
      exact ⟨body, '+', suffix, hs, hsize⟩
    · obtain ⟨body, suffix, hs, hsize⟩ := Utf8.split_of_byteAt (by decide) hb
      exact ⟨body, '-', suffix, hs, hsize⟩
  obtain ⟨body, c, suffix, rfl, hsize⟩ := hsplit
  exact ⟨body, c :: suffix, rfl, @Utf8.slice?_append 0 [] body (c :: suffix) i rfl (by omega)⟩

theorem splitNumericOffset_spec : ¬ Panics (splitNumericOffset s) ∧
    ∀ r, Gives (splitNumericOffset s) r → ∃ suffix, s = r.1 ++ suffix := by
  unfold splitNumericOffset
  simp only [panics_bind, gives_bind, gives_require, gives_expectByte, gives_slice, gives_index, panics_index,
    panics_expectByte, panics_slice, not_panics_require, not_panics_offsetSign, not_panics_two, not_panics_pure,
    gives_pure, and_false, exists_false, or_false, false_or]
  constructor
  · rintro ⟨_, hsize, hpanic | ⟨b, hb, sign, hsign, hpanic⟩⟩
    · omega
    · rcases hpanic with hpanic | ⟨_, _, hpanic⟩
      · omega
      · obtain ⟨body, suffix, -, hslice⟩ := slice_of_sign hb (gives_offsetSign hsign)
        rw [hslice] at hpanic
        rcases hpanic with hpanic | ⟨_, _, hpanic | ⟨_, _, _, _, hpanic | ⟨_, _, hpanic | ⟨_, _, _, _, _, _, hpanic⟩⟩⟩⟩
        · omega
        · omega
        · omega
        · omega
        · cases hpanic
  · rintro r ⟨_, _, b, hb, sign, hsign, _, _, _, _, _, _, _, _, _, _, _, _, _, _, _, _, body, hbody, rfl⟩
    obtain ⟨front, suffix, hs, hslice⟩ := slice_of_sign hb (gives_offsetSign hsign)
    rw [hslice, Option.some.injEq] at hbody
    subst hbody
    exact ⟨suffix, hs⟩

theorem not_panics_body {body suffix : List Char} (hwhole : ¬StraddlesSeconds s) (hs : s = body ++ suffix) :
    ¬Panics (parseWallClock body) := by
  intro hpanic
  exact hwhole (by rw [hs]; exact (panics_parseWallClock.mp hpanic).append suffix)

theorem not_panics_parseUtcDateTime (hwhole : ¬StraddlesSeconds s) : ¬Panics (parseUtcDateTime s) := by
  unfold parseUtcDateTime
  cases hz : stripBack ['Z'] s with
  | none => exact not_panics_throw
  | some body => exact fun h => not_panics_body hwhole (eq_append_of_stripBack hz) (panics_map.mp h)

/-- No parser of dates and times panics on a text, unless the text is that of a date and then a time whose seconds
end inside a character. -/
theorem parsers_panic_iff (s : List Char) :
    (¬ Panics (parseLocalDateTime s) ∧ ¬ Panics (parseCalendarDate s) ∧ ¬ Panics (parseUtcDateTime s) ∧
      ¬ Panics (parseRfc3339 s)) ↔ ¬ StraddlesSeconds s := by
  constructor
  · rintro ⟨hlocal, -⟩ hstraddles
    exact hlocal (panics_parseWallClock.mpr hstraddles)
  · intro hwhole
    refine ⟨fun h => hwhole (panics_parseWallClock.mp h), not_panics_parseYmd, not_panics_parseUtcDateTime hwhole, ?_⟩
    unfold parseRfc3339
    cases hz : stripBack ['Z'] s with
    | some body => exact fun h => not_panics_body hwhole (eq_append_of_stripBack hz) (panics_map.mp h)
    | none =>
      intro h
      obtain ⟨hsplit, hsuffix⟩ := @splitNumericOffset_spec s
      rcases panics_bind.mp h with h | ⟨⟨body, offset⟩, hgives, h⟩
      · exact hsplit h
      · obtain ⟨suffix, hs⟩ := hsuffix _ hgives
        rcases panics_bind.mp h with h | ⟨wall, -, h⟩
        · exact not_panics_body hwhole hs h
        · exact not_panics_orOutOfRange h

/-- A letter with an accent in the place of the last digit. -/
theorem parser_panics : ¬ ∀ s : List Char, ¬ Panics (parseLocalDateTime s) := by
  intro h
  exact h "2020-01-01T00:00:0é".toList (by unfold Panics; decide)

end Read

end Clock
end SyncEngine
