import SyncEngine.Rrule.Until

/-!
# A rule read back

What is written of a rule that was read is read as the same rule, but for a `SKIP`, which is not written, and for a
`BYMONTH` of one empty entry, which is taken for none.
-/

namespace SyncEngine
namespace Rrule

open Recurrence

/-! ## Entries -/

section Entries

variable {s : List Char} {n : Nat} {i : Int}

theorem isEntry_of_plain (h : ∀ c ∈ s, Plain c) : IsEntry s :=
  ⟨trimmed_of_forall fun c hc => (h c hc).1, fun hc => (h ';' hc).2.1 rfl, fun hc => (h ',' hc).2.2 rfl⟩

theorem isValue_of_plain (h : ∀ c ∈ s, Plain c) : IsValue s :=
  ⟨trimmed_of_forall fun c hc => (h c hc).1, fun hc => (h ';' hc).2.1 rfl⟩

theorem plain_decimal : ∀ c ∈ decimal n, Plain c := fun c hc => plain_of_isDigit (isDigits_decimal c hc)

theorem plain_signedDecimal : ∀ c ∈ signedDecimal i, Plain c := by
  intro c hc
  unfold signedDecimal at hc
  split_ifs at hc
  · rcases List.mem_cons.mp hc with rfl | hdigit
    · decide
    · exact plain_decimal c hdigit
  · exact plain_decimal c hc

theorem signedDecimal_ne_nil : signedDecimal i ≠ [] := by
  unfold signedDecimal
  split_ifs
  · exact List.cons_ne_nil _ _
  · exact decimal_ne_nil

variable (f : Frequency)

theorem plain_frequencyToken : ∀ c ∈ frequencyToken f, Plain c := by
  cases f <;> decide

variable (day : Weekday)

theorem plain_weekdayToken : ∀ c ∈ weekdayToken day, Plain c := by
  cases day <;> decide

theorem frequency_frequencyToken : frequency (frequencyToken f) = some f := by
  cases f <;> decide

theorem weekday_weekdayToken : weekday (weekdayToken day) = some day := by
  cases day <;> decide

theorem size_weekdayToken : Utf8.size (weekdayToken day) = 2 := by
  cases day <;> decide

theorem plain_formatNDay (nday : NDay) : ∀ c ∈ formatNDay nday, Plain c := by
  intro c hc
  rcases List.mem_append.mp hc with hordinal | hday
  · cases hnth : nday.nthOfPeriod with
    | none =>
      rw [hnth] at hordinal
      cases hordinal
    | some nth =>
      rw [hnth] at hordinal
      exact plain_signedDecimal c hordinal
  · exact plain_weekdayToken nday.day c hday

/-- What `i32` holds. -/
def InI32 (i : Int) : Prop := -2 ^ 31 ≤ i ∧ i < 2 ^ 31

theorem parseNday_formatNDay {nday : NDay} (h : ∀ nth ∈ nday.nthOfPeriod, InI32 nth) :
    parseNday (formatNDay nday) = some nday := by
  obtain ⟨day, nth, hnonzero⟩ := nday
  have htrim := trimChars_of_trimmed (trimmed_of_forall fun c hc => (plain_formatNDay ⟨day, nth, hnonzero⟩ c hc).1)
  have hsize := size_weekdayToken day
  have hcut : ∀ ordinal : List Char, ¬ Utf8.size (ordinal ++ weekdayToken day) < 2 ∧
      Utf8.cutAt? (ordinal ++ weekdayToken day) (Utf8.size (ordinal ++ weekdayToken day) - 2) =
        some (ordinal, weekdayToken day) := by
    intro ordinal
    rw [Utf8.size_append, hsize, Nat.add_sub_cancel]
    exact ⟨by omega, Utf8.cutAt?_append⟩
  unfold parseNday
  rw [htrim]
  cases nth with
  | none =>
    show (if Utf8.size (weekdayToken day) < 2 then _ else _) = _
    obtain ⟨hlong, hpieces⟩ := hcut []
    rw [List.nil_append] at hlong hpieces
    rw [if_neg hlong, show formatNDay ⟨day, none, hnonzero⟩ = weekdayToken day from rfl, hpieces]
    show (weekday (weekdayToken day)).bind _ = _
    rw [weekday_weekdayToken]
    rfl
  | some nth =>
    obtain ⟨hlong, hpieces⟩ := hcut (signedDecimal nth)
    obtain ⟨hlow, hhigh⟩ := h nth rfl
    show (if Utf8.size (signedDecimal nth ++ weekdayToken day) < 2 then _ else _) = _
    rw [if_neg hlong, show formatNDay ⟨day, some nth, hnonzero⟩ = signedDecimal nth ++ weekdayToken day from rfl, hpieces]
    show (weekday (weekdayToken day)).bind _ = _
    rw [weekday_weekdayToken, Option.bind_some, if_neg signedDecimal_ne_nil]
    show (parseSigned 32 (signedDecimal nth)).bind _ = _
    rw [parseSigned_signedDecimal hlow hhigh, Option.bind_some]
    unfold newNDay
    rw [dif_pos (by simpa using hnonzero)]

end Entries

/-! ## Rules that can be read -/

/-- What the numbers and the entries of a rule that was read are like. -/
structure Readable (rule : RecurrenceRule) : Prop where
  interval : rule.interval < 2 ^ 32
  count : ∀ n pos, rule.bound = .count n pos → n < 2 ^ 32
  untilTime : ∀ t, rule.bound = .untilTime t → t.time.nanosecond = 0 ∧ -999 ≤ t.date.year
  byDay : ∀ nday ∈ rule.byDay, ∀ nth ∈ nday.nthOfPeriod, InI32 nth
  byMonthDay : ∀ i ∈ rule.byMonthDay, InI32 i
  byYearDay : ∀ i ∈ rule.byYearDay, InI32 i
  byWeekNo : ∀ i ∈ rule.byWeekNo, InI32 i
  bySetPosition : ∀ i ∈ rule.bySetPosition, InI32 i
  byHour : ∀ n ∈ rule.byHour, n < 2 ^ 8
  byMinute : ∀ n ∈ rule.byMinute, n < 2 ^ 8
  bySecond : ∀ n ∈ rule.bySecond, n < 2 ^ 8
  byMonth : ∀ month ∈ rule.byMonth, IsEntry month.toList

section Lists

theorem intList_pushInts {values : List Int} (h : ∀ i ∈ values, InI32 i) : intList (pushInts values) = values :=
  list_pushList (fun _ _ => isEntry_of_plain plain_signedDecimal) (fun _ _ => signedDecimal_ne_nil)
    fun i hi => parseSigned_signedDecimal (h i hi).1 (h i hi).2

theorem uintList_pushUints {values : List Nat} (h : ∀ n ∈ values, n < 2 ^ 8) : uintList (pushUints values) = values :=
  list_pushList (fun _ _ => isEntry_of_plain plain_decimal) (fun _ _ => decimal_ne_nil)
    fun n hn => parseUnsigned_decimal (h n hn)

/-- Month entries as they are read back: one empty entry is none. -/
def rereadMonths (months : List String) : List String := if months = [""] then [] else months

theorem strList_pushStrs {values : List String} (h : ∀ month ∈ values, IsEntry month.toList) :
    strList (pushStrs values) = rereadMonths values := by
  have hentries : ∀ entry ∈ values.map String.toList, IsEntry entry := by
    intro entry he
    obtain ⟨month, hmonth, rfl⟩ := List.mem_map.mp he
    exact h month hmonth
  unfold pushStrs pushList rereadMonths
  by_cases hempty : joined (values.map String.toList) = []
  · rw [if_pos hempty]
    rcases joined_eq_nil_iff.mp hempty with hnone | hone
    · rw [List.map_eq_nil_iff.mp hnone]
      rfl
    · obtain ⟨month, rfl, hmonth⟩ := List.map_eq_singleton_iff.mp hone
      rw [if_pos (by rw [String.toList_eq_nil_iff.mp hmonth])]
      rfl
  · have hne : values ≠ [] := by
      rintro rfl
      exact hempty rfl
    have hnot : values ≠ [""] := by
      rintro rfl
      exact hempty rfl
    rw [if_neg hempty, if_neg hnot]
    show ((joined (values.map String.toList)).splitOn ',').filterMap _ = _
    rw [splitOn_joined (by simpa using hne) hentries, List.filterMap_map]
    refine (List.filterMap_congr fun month hmonth => ?_).trans List.filterMap_some
    show some (String.ofList (trimChars month.toList)) = some month
    rw [trimChars_of_trimmed (h month hmonth).1, String.ofList_toList]

theorem byDayList_pushByDay {days : List NDay} (h : ∀ nday ∈ days, ∀ nth ∈ nday.nthOfPeriod, InI32 nth) :
    byDayList (pushByDay days) = days := by
  unfold pushByDay
  by_cases hnil : days = []
  · subst hnil
    rfl
  · rw [if_neg hnil]
    show ((joined (days.map formatNDay)).splitOn ',').filterMap parseNday = _
    have hentries : ∀ entry ∈ days.map formatNDay, IsEntry entry := by
      intro entry he
      obtain ⟨nday, -, rfl⟩ := List.mem_map.mp he
      exact isEntry_of_plain (plain_formatNDay nday)
    rw [splitOn_joined (by simpa using hnil) hentries, List.filterMap_map]
    exact (List.filterMap_congr fun nday hnday => parseNday_formatNDay (h nday hnday)).trans List.filterMap_some

end Lists

/-! ## Reading what is written -/

section Written

variable {rule : RecurrenceRule} {form : UntilForm}

theorem isKey_optionalParts : ∀ part ∈ optionalParts rule form, IsKey part.1 := by
  have hkeys : ∀ key ∈ (optionalParts rule form).map Prod.fst, IsKey key := by
    show ∀ key ∈ ["INTERVAL", "COUNT", "UNTIL", "BYSECOND", "BYMINUTE", "BYHOUR", "BYDAY", "BYMONTHDAY", "BYYEARDAY",
      "BYWEEKNO", "BYMONTH", "BYSETPOS", "WKST"], IsKey key
    decide
  exact fun part hpart => hkeys part.1 (List.mem_map_of_mem hpart)

theorem nodup_optionalParts : ((optionalParts rule form).map Prod.fst).Nodup := by
  show ["INTERVAL", "COUNT", "UNTIL", "BYSECOND", "BYMINUTE", "BYHOUR", "BYDAY", "BYMONTHDAY", "BYYEARDAY",
    "BYWEEKNO", "BYMONTH", "BYSETPOS", "WKST"].Nodup
  decide

theorem isValue_pushList {entries : List (List Char)} (h : ∀ entry ∈ entries, IsEntry entry) :
    ∀ value ∈ pushList entries, IsValue value := by
  intro value hvalue
  unfold pushList at hvalue
  split_ifs at hvalue
  · cases hvalue
  · obtain rfl := Option.some.inj hvalue
    exact isValue_joined h

theorem isValue_pushInts {values : List Int} : ∀ value ∈ pushInts values, IsValue value := by
  refine isValue_pushList fun entry he => ?_
  obtain ⟨i, -, rfl⟩ := List.mem_map.mp he
  exact isEntry_of_plain plain_signedDecimal

theorem isValue_pushUints {values : List Nat} : ∀ value ∈ pushUints values, IsValue value := by
  refine isValue_pushList fun entry he => ?_
  obtain ⟨n, -, rfl⟩ := List.mem_map.mp he
  exact isEntry_of_plain plain_decimal

theorem isValue_count :
    ∀ value ∈ (match rule.bound with | .count n _ => some (decimal n) | _ => none), IsValue value := by
  intro value hvalue
  split at hvalue
  · obtain rfl := Option.some.inj hvalue
    exact isValue_of_plain plain_decimal
  · cases hvalue

theorem isValue_until :
    ∀ value ∈ (match rule.bound with | .untilTime t => some (renderUntil t form) | _ => none), IsValue value := by
  intro value hvalue
  split at hvalue
  · obtain rfl := Option.some.inj hvalue
    exact isValue_of_plain (plain_renderUntil _ form)
  · cases hvalue

theorem isValue_optionalParts (hmonths : ∀ month ∈ rule.byMonth, IsEntry month.toList) :
    ∀ part ∈ optionalParts rule form, ∀ value ∈ part.2, IsValue value := by
  have hinterval : ∀ value ∈ (if rule.interval ≠ 1 then some (decimal rule.interval) else none), IsValue value := by
    intro value hvalue
    split_ifs at hvalue
    · obtain rfl := Option.some.inj hvalue
      exact isValue_of_plain plain_decimal
    · cases hvalue
  have hdays : ∀ value ∈ pushByDay rule.byDay, IsValue value := by
    intro value hvalue
    unfold pushByDay at hvalue
    split_ifs at hvalue
    · cases hvalue
    · obtain rfl := Option.some.inj hvalue
      refine isValue_joined fun entry he => ?_
      obtain ⟨nday, -, rfl⟩ := List.mem_map.mp he
      exact isEntry_of_plain (plain_formatNDay nday)
  have hstrs : ∀ value ∈ pushStrs rule.byMonth, IsValue value := by
    refine isValue_pushList fun entry he => ?_
    obtain ⟨month, hmonth, rfl⟩ := List.mem_map.mp he
    exact hmonths month hmonth
  have hweek : ∀ value ∈ (if rule.firstDayOfWeek ≠ .mo then some (weekdayToken rule.firstDayOfWeek) else none),
      IsValue value := by
    intro value hvalue
    split_ifs at hvalue
    · obtain rfl := Option.some.inj hvalue
      exact isValue_of_plain (plain_weekdayToken _)
    · cases hvalue
  unfold optionalParts
  simp only [List.forall_mem_cons]
  exact ⟨hinterval, isValue_count, isValue_until, isValue_pushUints, isValue_pushUints, isValue_pushUints, hdays, isValue_pushInts,
    isValue_pushInts, isValue_pushInts, hstrs, isValue_pushInts, hweek, fun part hpart => absurd hpart List.not_mem_nil⟩

/-- The text of a rule without an `RSCALE`. -/
def written (rule : RecurrenceRule) (form : UntilForm) : List Char :=
  "FREQ=".toList ++ (frequencyToken rule.frequency ++ (optionalParts rule form).flatMap pushPart)

theorem parseParts_written_rule (hmonths : ∀ month ∈ rule.byMonth, IsEntry month.toList) :
    parseParts (written rule form) =
      ("FREQ".toList, frequencyToken rule.frequency) :: (optionalParts rule form).filterMap readPart := by
  have htoken := isValue_of_plain (plain_frequencyToken rule.frequency)
  have hfirst : ';' ∉ "FREQ=".toList ++ frequencyToken rule.frequency := by
    intro hmem
    rcases List.mem_append.mp hmem with hin | hin
    · exact absurd hin (by decide)
    · exact htoken.2 hin
  have hparts := parseParts_written hfirst (@isKey_optionalParts rule form) (isValue_optionalParts hmonths)
  rw [List.append_assoc] at hparts
  unfold written
  rw [hparts, show "FREQ=".toList ++ frequencyToken rule.frequency =
    "FREQ".toList ++ '=' :: frequencyToken rule.frequency from rfl, parsePart_written (by decide) htoken]
  rfl

theorem get_written_rule (hmonths : ∀ month ∈ rule.byMonth, IsEntry month.toList) {key : String} (hkey : key ≠ "FREQ") :
    get (parseParts (written rule form)) key =
      ((optionalParts rule form).find? fun part => part.1 = key).bind Prod.snd := by
  rw [parseParts_written_rule hmonths, ← get_written nodup_optionalParts]
  unfold get
  rw [List.find?_cons_of_neg]
  exact fun heq => hkey (String.toList_inj.mp (of_decide_eq_true heq)).symm

/-- A written rule as it is read back. -/
def reread (rule : RecurrenceRule) (form : UntilForm) : RecurrenceRule :=
  { rule with
    skip := .omit
    byMonth := rereadMonths rule.byMonth
    bound := match rule.bound with
      | .untilTime t => .untilTime (rereadUntil t form)
      | bound => bound }

theorem parseBound_written (h : Readable rule)
    (hyear : ∀ t, rule.bound = .untilTime t → -999 ≤ (rereadUntil t form).date.year) :
    parseBound (parseParts (written rule form)) = .ok (reread rule form).bound := by
  have hcount := @get_written_rule rule form h.byMonth "COUNT" (by decide)
  have huntil := @get_written_rule rule form h.byMonth "UNTIL" (by decide)
  unfold parseBound
  rw [hcount, huntil]
  simp only [optionalParts, reread]
  cases hbound : rule.bound with
  | unbounded => simp
  | count n pos =>
    have hread : parseNonZero (decimal n) = some ⟨n, pos⟩ := by
      unfold parseNonZero nonZero
      rw [parseUnsigned_decimal (h.count n pos hbound), Option.bind_some, dif_pos pos]
    simp [hread]
  | untilTime t => simp [parseUntil_renderUntil t (hyear t hbound), Except.map]

/-- What is written of a rule whose numbers are in range is read as the rule, but for what is not written. -/
theorem parseRrule_written (h : Readable rule) (hrscale : rule.rscale = none)
    (hyear : ∀ t, rule.bound = .untilTime t → -999 ≤ (rereadUntil t form).date.year) :
    parseRrule (written rule form) = .ok (reread rule form) := by
  have hget := fun key hkey => @get_written_rule rule form h.byMonth key hkey
  have hfreq : (get (parseParts (written rule form)) "FREQ").bind frequency = some rule.frequency := by
    rw [parseParts_written_rule h.byMonth]
    show frequency (frequencyToken rule.frequency) = _
    exact frequency_frequencyToken rule.frequency
  have hinterval : ((get (parseParts (written rule form)) "INTERVAL").bind parseNonZero).getD ⟨1, by decide⟩ =
      ⟨rule.interval, rule.intervalPos⟩ := by
    rw [hget "INTERVAL" (by decide)]
    show (Option.bind (if rule.interval ≠ 1 then some (decimal rule.interval) else none) parseNonZero).getD _ = _
    by_cases hone : rule.interval = 1
    · rw [if_neg (by simpa using hone)]
      exact Subtype.ext hone.symm
    · rw [if_pos hone, Option.bind_some]
      unfold parseNonZero nonZero
      rw [parseUnsigned_decimal h.interval, Option.bind_some, dif_pos rule.intervalPos]
      rfl
  have hweek : ((get (parseParts (written rule form)) "WKST").bind weekday).getD .mo = rule.firstDayOfWeek := by
    rw [hget "WKST" (by decide)]
    show (Option.bind (if rule.firstDayOfWeek ≠ .mo then some (weekdayToken rule.firstDayOfWeek) else none)
      weekday).getD _ = _
    by_cases hmonday : rule.firstDayOfWeek = .mo
    · rw [if_neg (by simpa using hmonday), hmonday]
      rfl
    · rw [if_pos hmonday, Option.bind_some, weekday_weekdayToken]
      rfl
  unfold parseRrule
  simp only [hfreq, parseBound_written h hyear, hinterval, hweek]
  rw [hget "RSCALE" (by decide), hget "SKIP" (by decide), hget "BYDAY" (by decide), hget "BYMONTHDAY" (by decide),
    hget "BYMONTH" (by decide), hget "BYYEARDAY" (by decide), hget "BYWEEKNO" (by decide), hget "BYHOUR" (by decide),
    hget "BYMINUTE" (by decide), hget "BYSECOND" (by decide), hget "BYSETPOS" (by decide)]
  have hdays := byDayList_pushByDay h.byDay
  have hmonthDays := intList_pushInts h.byMonthDay
  have hmonths := strList_pushStrs h.byMonth
  have hyearDays := intList_pushInts h.byYearDay
  have hweeks := intList_pushInts h.byWeekNo
  have hhours := uintList_pushUints h.byHour
  have hminutes := uintList_pushUints h.byMinute
  have hseconds := uintList_pushUints h.bySecond
  have hpositions := intList_pushInts h.bySetPosition
  simp only [optionalParts, List.find?_cons, List.find?_nil, String.reduceEq,
    decide_false, decide_true, Option.bind_some, Option.bind_none, Option.map_none, Option.getD_none, hdays, hmonthDays,
    hmonths, hyearDays, hweeks, hhours, hminutes, hseconds, hpositions]
  unfold reread
  rw [hrscale]
  rfl

end Written

/-! ## What is read can be read again -/

section Readable

variable {value text : List Char} {rule : RecurrenceRule}

theorem parseNonZero_lt {n : { n : Nat // 0 < n }} (h : parseNonZero value = some n) : n.1 < 2 ^ 32 := by
  obtain ⟨m, hm, hn⟩ := Option.bind_eq_some_iff.mp h
  unfold nonZero at hn
  split_ifs at hn
  rw [← Option.some.inj hn]
  exact parseUnsigned_lt hm

variable {year : Int}

theorem year_of_parseSigned (h : parseSigned 32 value = some year) (hsize : Utf8.size value = 4) : -999 ≤ year := by
  unfold parseSigned at h
  split at h
  next digits =>
    split_ifs at h with hbad hle
    have hdigits : IsDigits digits := List.all_eq_true.mp (by simpa using fun hall => hbad (.inr hall))
    have hlt := digitsValue_lt hdigits
    have hsign : Char.utf8Size '-' = 1 := by decide
    rw [Utf8.size_cons, Clock.size_digits hdigits, hsign] at hsize
    rw [show digits.length = 3 by omega] at hlt
    rw [← Option.some.inj h]
    omega
  next =>
    obtain ⟨n, -, rfl⟩ := Option.map_eq_some_iff.mp h
    rw [Int.ofNat_eq_natCast]
    omega

variable {month day : Nat} {t : LocalDateTime}

theorem newLocalDateTime_spec {hour minute second : Nat}
    (h : newLocalDateTime year month day hour minute second = some t) : t.time.nanosecond = 0 ∧ t.date.year = year := by
  obtain ⟨date, hdate, h⟩ := Option.bind_eq_some_iff.mp h
  split_ifs at h
  rw [← Option.some.inj h]
  exact ⟨rfl, (Date.new?_eq_some_iff.mp hdate).1⟩

theorem untilTime_spec (h : untilTime value year month day = some t) : t.time.nanosecond = 0 ∧ t.date.year = year := by
  unfold untilTime at h
  split_ifs at h
  · exact newLocalDateTime_spec h
  · obtain ⟨_, -, h⟩ := Option.bind_eq_some_iff.mp h
    obtain ⟨_, -, h⟩ := Option.bind_eq_some_iff.mp h
    obtain ⟨_, -, h⟩ := Option.bind_eq_some_iff.mp h
    exact newLocalDateTime_spec h

theorem parseUntil_spec (h : parseUntil value = .ok t) : t.time.nanosecond = 0 ∧ -999 ≤ t.date.year := by
  unfold parseUntil at h
  cases hbody : untilBody (trimEndZulu (trimChars value)) with
  | none =>
    rw [hbody] at h
    cases h
  | some read =>
    rw [hbody] at h
    obtain rfl := Except.ok.inj h
    obtain ⟨year, hyear, hrest⟩ := Option.bind_eq_some_iff.mp hbody
    obtain ⟨_, -, hrest⟩ := Option.bind_eq_some_iff.mp hrest
    obtain ⟨_, -, hrest⟩ := Option.bind_eq_some_iff.mp hrest
    obtain ⟨hwhole, hsame⟩ := untilTime_spec hrest
    obtain ⟨digits, hdigits, hparse⟩ := Option.bind_eq_some_iff.mp hyear
    obtain ⟨hslice, -⟩ := Option.filter_eq_some_iff.mp hdigits
    -- the four characters of the year take four bytes
    have hsize : Utf8.size digits = 4 := by
      obtain ⟨⟨front, back⟩, hfront, hcut⟩ := Option.bind_eq_some_iff.mp hslice
      obtain ⟨⟨first, rest⟩, hfirst, rfl⟩ := Option.map_eq_some_iff.mp hcut
      exact (Utf8.cutAt?_eq_some_iff.mp hfirst).2
    exact ⟨hwhole, by rw [hsame]; exact year_of_parseSigned hparse hsize⟩

theorem parseNday_spec {nday : NDay} (h : parseNday value = some nday) : ∀ nth ∈ nday.nthOfPeriod, InI32 nth := by
  unfold parseNday at h
  simp only at h
  split_ifs at h
  split at h
  · cases h
  · obtain ⟨day, -, h⟩ := Option.bind_eq_some_iff.mp h
    split_ifs at h
    · rw [← Option.some.inj h]
      exact fun nth hnth => nomatch hnth
    · obtain ⟨n, hn, h⟩ := Option.bind_eq_some_iff.mp h
      unfold newNDay at h
      split_ifs at h
      rw [← Option.some.inj h]
      intro nth hnth
      rw [← Option.some.inj hnth]
      exact parseSigned_bounds hn

variable {values : Option (List Char)}

theorem mem_list {α : Type} {parse : List Char → Option α} {a : α}
    (h : a ∈ list values parse) : ∃ entry, parse (trimChars entry) = some a := by
  cases values with
  | none => cases h
  | some values =>
    obtain ⟨entry, -, hentry⟩ := List.mem_filterMap.mp h
    exact ⟨entry, hentry⟩

theorem mem_intList : ∀ i ∈ intList values, InI32 i := by
  intro i hi
  obtain ⟨entry, hentry⟩ := mem_list hi
  exact parseSigned_bounds hentry

theorem mem_uintList : ∀ n ∈ uintList values, n < 2 ^ 8 := by
  intro n hn
  obtain ⟨entry, hentry⟩ := mem_list hn
  exact parseUnsigned_lt hentry

variable {key : String}

theorem not_mem_of_get (h : get (parseParts text) key = some value) : ';' ∉ value := by
  obtain ⟨⟨name, read⟩, hfind, rfl⟩ := Option.map_eq_some_iff.mp h
  obtain ⟨part, hpart, hread⟩ := List.mem_filterMap.mp (List.mem_of_find?_eq_some hfind)
  obtain ⟨⟨front, back⟩, hsplit, heq⟩ := Option.map_eq_some_iff.mp hread
  obtain ⟨rfl, -⟩ := splitAtFirst_eq_some_iff.mp hsplit
  cases heq
  intro hmem
  exact not_mem_of_mem_splitOn hpart (List.mem_append_right _ (List.mem_cons_of_mem _ (mem_of_mem_trimChars hmem)))

theorem mem_strList : ∀ month ∈ strList (get (parseParts text) key), IsEntry month.toList := by
  intro month hmonth
  cases hget : get (parseParts text) key with
  | none =>
    rw [hget] at hmonth
    cases hmonth
  | some value =>
    rw [hget] at hmonth
    obtain ⟨entry, hentry, hsame⟩ := List.mem_filterMap.mp hmonth
    obtain rfl := Option.some.inj hsame
    rw [String.toList_ofList]
    refine ⟨trimmed_trimChars, fun hmem => ?_, fun hmem => ?_⟩
    · exact not_mem_of_get hget (mem_of_mem_splitOn hentry (mem_of_mem_trimChars hmem))
    · exact not_mem_of_mem_splitOn hentry (mem_of_mem_trimChars hmem)

theorem parseBound_spec {parts : List (List Char × List Char)} {bound : RecurrenceBound}
    (h : parseBound parts = .ok bound) : (∀ n pos, bound = .count n pos → n < 2 ^ 32) ∧
      ∀ t, bound = .untilTime t → t.time.nanosecond = 0 ∧ -999 ≤ t.date.year := by
  unfold parseBound at h
  split at h
  · split at h
    next n hn =>
      obtain rfl := Except.ok.inj h
      refine ⟨fun m pos hm => ?_, fun t ht => nomatch ht⟩
      cases hm
      exact parseNonZero_lt hn
    · cases h
  · split at h
    next until_ _ =>
      cases hread : parseUntil until_ with
      | error e =>
        rw [hread] at h
        cases h
      | ok t =>
        rw [hread] at h
        obtain rfl := Except.ok.inj h
        refine ⟨(fun n pos hn => nomatch hn), fun t' ht' => ?_⟩
        cases ht'
        exact parseUntil_spec hread
    · obtain rfl := Except.ok.inj h
      exact ⟨(fun n pos hn => nomatch hn), fun t ht => nomatch ht⟩

theorem readable_of_parseRrule (h : parseRrule text = .ok rule) : Readable rule := by
  unfold parseRrule at h
  simp only at h
  split at h
  · cases h
  next frequency _ =>
    cases hbound : parseBound (parseParts text) with
    | error e =>
      rw [hbound] at h
      cases h
    | ok bound =>
      rw [hbound] at h
      obtain rfl := Except.ok.inj h
      obtain ⟨hcount, huntil⟩ := parseBound_spec hbound
      have hinterval : (((get (parseParts text) "INTERVAL").bind parseNonZero).getD ⟨1, by decide⟩).1 < 2 ^ 32 := by
        cases hread : (get (parseParts text) "INTERVAL").bind parseNonZero with
        | none => decide
        | some n =>
          obtain ⟨digits, -, hn⟩ := Option.bind_eq_some_iff.mp hread
          exact parseNonZero_lt hn
      refine ⟨hinterval, hcount, huntil, fun nday hnday => ?_, mem_intList, mem_intList, mem_intList, mem_intList,
        mem_uintList, mem_uintList, mem_uintList, mem_strList⟩
      change nday ∈ byDayList (get (parseParts text) "BYDAY") at hnday
      cases hget : get (parseParts text) "BYDAY" with
      | none =>
        rw [hget] at hnday
        cases hnday
      | some value =>
        rw [hget] at hnday
        obtain ⟨entry, -, hentry⟩ := List.mem_filterMap.mp hnday
        exact parseNday_spec hentry

end Readable

/-- A rule that was read, where it can be written, is read back from what is written exactly if it has no `SKIP`
and its `BYMONTH` is not one empty entry. -/
theorem parseRrule_formatRrule_iff {text out : List Char} {rule : RecurrenceRule} (hread : parseRrule text = .ok rule)
    (hwritten : formatRrule rule .floating = .ok out) :
    parseRrule out = .ok rule ↔ rule.skip = .omit ∧ rule.byMonth ≠ [""] := by
  have h := readable_of_parseRrule hread
  unfold formatRrule at hwritten
  cases hrscale : rule.rscale with
  | some rscale =>
    rw [hrscale] at hwritten
    cases hwritten
  | none =>
    rw [hrscale] at hwritten
    obtain rfl := Except.ok.inj hwritten
    have hwhole : ∀ t, rule.bound = .untilTime t → rereadUntil t .floating = t := by
      rintro ⟨date, time⟩ ht
      have hnanos := (h.untilTime _ ht).1
      obtain ⟨hour, minute, second, nanosecond, hproper⟩ := time
      simp only at hnanos
      subst hnanos
      rfl
    have hback := @parseRrule_written rule .floating h hrscale fun t ht => by
      rw [hwhole t ht]
      exact (h.untilTime t ht).2
    have hbound : (reread rule .floating).bound = rule.bound := by
      unfold reread
      cases hb : rule.bound with
      | unbounded => rfl
      | count n pos => rfl
      | untilTime t => exact congrArg RecurrenceBound.untilTime (hwhole t hb)
    rw [show "FREQ=".toList ++ (frequencyToken rule.frequency ++ (optionalParts rule .floating).flatMap pushPart) =
      written rule .floating from rfl, hback]
    have hmonths : rereadMonths rule.byMonth = rule.byMonth ↔ rule.byMonth ≠ [""] := by
      unfold rereadMonths
      by_cases hone : rule.byMonth = [""]
      · rw [if_pos hone, hone]
        decide
      · rw [if_neg hone]
        exact iff_of_true rfl hone
    constructor
    · intro hsame
      have hrule := Except.ok.inj hsame
      refine ⟨?_, hmonths.mp (congrArg RecurrenceRule.byMonth hrule)⟩
      exact (congrArg RecurrenceRule.skip hrule).symm
    · intro ⟨hskip, hmonth⟩
      have hrule : reread rule .floating = rule := by
        have hm := hmonths.mpr hmonth
        cases rule
        unfold reread at hbound ⊢
        simp only at hskip hm hbound ⊢
        rw [hskip, hm, hbound]
      rw [hrule]

theorem ok_of_toOption {ε α : Type} {r : Except ε α} {a : α} (h : r.toOption = some a) : r = .ok a := by
  cases r with
  | error e => cases h
  | ok b => rw [Option.some.inj h]

/-- A rule with parts that are written in another way than they were read. -/
theorem parseRrule_formatRrule_weekly :
    ∃ rule out, parseRrule "FREQ=WEEKLY;INTERVAL=02;BYDAY=-1SU,tu;UNTIL=20260101".toList = .ok rule ∧
      formatRrule rule .floating = .ok out ∧ parseRrule out = .ok rule := by
  have hread : ∃ rule, (parseRrule "FREQ=WEEKLY;INTERVAL=02;BYDAY=-1SU,tu;UNTIL=20260101".toList).toOption = some rule ∧
      ∃ out, (formatRrule rule .floating).toOption = some out ∧ rule.skip = .omit ∧ rule.byMonth ≠ [""] := by
    decide
  obtain ⟨rule, hrule, out, hout, hparts⟩ := hread
  have hok := ok_of_toOption hrule
  have hwritten := ok_of_toOption hout
  exact ⟨rule, out, hok, hwritten, (parseRrule_formatRrule_iff hok hwritten).mpr hparts⟩

/-- A `SKIP` without an `RSCALE` is read, and lost in writing. -/
theorem parseRrule_formatRrule_skip : ¬ ∀ (text out : List Char) (rule : RecurrenceRule),
    parseRrule text = .ok rule → formatRrule rule .floating = .ok out → parseRrule out = .ok rule := by
  intro h
  have hlost : ∃ rule, (parseRrule "FREQ=DAILY;SKIP=FORWARD".toList).toOption = some rule ∧
      ∃ out, (formatRrule rule .floating).toOption = some out ∧ (parseRrule out).toOption ≠ some rule := by
    decide
  obtain ⟨rule, hrule, out, hout, hother⟩ := hlost
  rw [h _ out rule (ok_of_toOption hrule) (ok_of_toOption hout)] at hother
  exact hother rfl

end Rrule
end SyncEngine
