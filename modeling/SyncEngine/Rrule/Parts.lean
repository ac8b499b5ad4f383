import SyncEngine.Library.Padded
import SyncEngine.Library.Whitespace
import SyncEngine.Clock.Instant

/-!
# The parts of a written rule

What stands between the semicolons of a written rule is its parts again, each under its key and with its value, and
a list written with commas is read back entry by entry.
-/

namespace SyncEngine
namespace Rrule

/-!
## Reading a rule

The value of an `RRULE` is read part by part.  A part that is not understood is left out, but for `FREQ`, `COUNT`
and `UNTIL`, which the rule cannot be without or would mean something else without.
-/

open Recurrence

inductive RruleParseError
  | frequency (value : List Char)
  | count (value : List Char)
  | untilTime (value : List Char)
deriving DecidableEq

def upper (s : List Char) : List Char := s.map Char.toUpper

/-! ## Tokens -/

def skip (value : List Char) : Option RecurrenceSkip :=
  if upper value = "OMIT".toList then some .omit
  else if upper value = "BACKWARD".toList then some .backward
  else if upper value = "FORWARD".toList then some .forward
  else none

def frequency (value : List Char) : Option Frequency :=
  if upper value = "SECONDLY".toList then some .secondly
  else if upper value = "MINUTELY".toList then some .minutely
  else if upper value = "HOURLY".toList then some .hourly
  else if upper value = "DAILY".toList then some .daily
  else if upper value = "WEEKLY".toList then some .weekly
  else if upper value = "MONTHLY".toList then some .monthly
  else if upper value = "YEARLY".toList then some .yearly
  else none

def weekday (value : List Char) : Option Weekday :=
  if upper (trimChars value) = "MO".toList then some .mo
  else if upper (trimChars value) = "TU".toList then some .tu
  else if upper (trimChars value) = "WE".toList then some .we
  else if upper (trimChars value) = "TH".toList then some .th
  else if upper (trimChars value) = "FR".toList then some .fr
  else if upper (trimChars value) = "SA".toList then some .sa
  else if upper (trimChars value) = "SU".toList then some .su
  else none

/-! ## Parts -/

def parsePart (part : List Char) : Option (List Char × List Char) :=
  (splitAtFirst ['='] part).map fun (key, value) => (upper (trimChars key), trimChars value)

def parseParts (value : List Char) : List (List Char × List Char) := (value.splitOn ';').filterMap parsePart

/-- The first value of a key. -/
def get (parts : List (List Char × List Char)) (key : String) : Option (List Char) :=
  (parts.find? fun part => part.1 = key.toList).map Prod.snd

def nonZero (n : Nat) : Option { n : Nat // 0 < n } := if h : 0 < n then some ⟨n, h⟩ else none

def parseNonZero (value : List Char) : Option { n : Nat // 0 < n } := (parseUnsigned 32 value).bind nonZero

def field {α : Type} (parse : List Char → Option α) (s : List Char) (i j : Nat) : Option α :=
  ((Utf8.slice? s i j).filter (· ≠ [])).bind parse

def trimEndZulu (s : List Char) : List Char := (s.reverse.dropWhile fun c => c = 'Z' || c = 'z').reverse

def newLocalDateTime (year : Int) (month day hour minute second : Nat) : Option LocalDateTime := do
  let date ← Date.new? year month day
  if h : hour < 24 ∧ minute < 60 ∧ second < 60 ∧ 0 < 1000000000 then some ⟨date, ⟨hour, minute, second, 0, h⟩⟩
  else none

/-- The time of day in a basic-format date-time.  A date alone goes on to the end of its day. -/
def untilTime (body : List Char) (year : Int) (month day : Nat) : Option LocalDateTime :=
  if Utf8.size body = 8 then newLocalDateTime year month day 23 59 59
  else if Utf8.size body ≠ 15 ∨ Utf8.byteAt body 8 ≠ some (Utf8.ascii 'T') then none
  else do
    let hour ← field (parseUnsigned 8) body 9 11
    let minute ← field (parseUnsigned 8) body 11 13
    let second ← field (parseUnsigned 8) body 13 15
    newLocalDateTime year month day hour minute second

def untilBody (body : List Char) : Option LocalDateTime := do
  let year ← field (parseSigned 32) body 0 4
  let month ← field (parseUnsigned 8) body 4 6
  let day ← field (parseUnsigned 8) body 6 8
  untilTime body year month day

def parseUntil (value : List Char) : Except RruleParseError LocalDateTime :=
  match untilBody (trimEndZulu (trimChars value)) with
  | some t => .ok t
  | none => .error (.untilTime value)

/-- The end of the rule.  A `COUNT` is looked at before an `UNTIL`. -/
def parseBound (parts : List (List Char × List Char)) : Except RruleParseError RecurrenceBound :=
  match get parts "COUNT" with
  | some count =>
    match parseNonZero count with
    | some n => .ok (.count n.1 n.2)
    | none => .error (.count count)
  | none =>
    match get parts "UNTIL" with
    | some value => (parseUntil value).map .untilTime
    | none => .ok .unbounded

def newNDay (day : Weekday) (n : Int) : Option NDay :=
  if h : n ≠ 0 then some ⟨day, some n, by simpa using h⟩ else none

/-- A weekday, with an ordinal before it or without one.  The weekday is the last two bytes. -/
def parseNday (token : List Char) : Option NDay :=
  let token := trimChars token
  if Utf8.size token < 2 then none
  else
    match Utf8.cutAt? token (Utf8.size token - 2) with
    | none => none
    | some (ordinal, name) => do
      let day ← weekday name
      if ordinal = [] then some ⟨day, none, by simp⟩
      else do
        let n ← parseSigned 32 ordinal
        newNDay day n

/-- The entries between commas, those that cannot be read left out. -/
def list {α : Type} (value : Option (List Char)) (parse : List Char → Option α) : List α :=
  match value with
  | none => []
  | some value => (value.splitOn ',').filterMap fun entry => parse (trimChars entry)

def intList (value : Option (List Char)) : List Int := list value (parseSigned 32)

def uintList (value : Option (List Char)) : List Nat := list value (parseUnsigned 8)

def strList (value : Option (List Char)) : List String := list value fun entry => some (String.ofList entry)

def byDayList (value : Option (List Char)) : List NDay :=
  match value with
  | none => []
  | some value => (value.splitOn ',').filterMap parseNday

def parseRrule (value : List Char) : Except RruleParseError RecurrenceRule := do
  let parts := parseParts value
  match (get parts "FREQ").bind frequency with
  | none => throw (.frequency value)
  | some frequency =>
    let interval := ((get parts "INTERVAL").bind parseNonZero).getD ⟨1, Nat.one_pos⟩
    let bound ← parseBound parts
    return {
      frequency := frequency
      interval := interval.1
      rscale := (get parts "RSCALE").map fun name => String.ofList (name.map Char.toLower)
      skip := ((get parts "SKIP").bind skip).getD .omit
      firstDayOfWeek := ((get parts "WKST").bind weekday).getD .mo
      byDay := byDayList (get parts "BYDAY")
      byMonthDay := intList (get parts "BYMONTHDAY")
      byMonth := strList (get parts "BYMONTH")
      byYearDay := intList (get parts "BYYEARDAY")
      byWeekNo := intList (get parts "BYWEEKNO")
      byHour := uintList (get parts "BYHOUR")
      byMinute := uintList (get parts "BYMINUTE")
      bySecond := uintList (get parts "BYSECOND")
      bySetPosition := intList (get parts "BYSETPOS")
      bound := bound
      intervalPos := interval.2 }

end Rrule

namespace Rrule

/-!
## Writing a rule

The parts stand in one order, and a part that says what holds anyway is left out.  How an `UNTIL` is written
depends on the start of the series, so the caller says which form it takes.
-/

open Recurrence

inductive RruleFormatError
  | nonGregorian (rscale : String)
deriving DecidableEq

inductive UntilForm
  | date
  | floating
  | utc (instant : UtcDateTime)

def frequencyToken : Frequency → List Char
  | .yearly => "YEARLY".toList
  | .monthly => "MONTHLY".toList
  | .weekly => "WEEKLY".toList
  | .daily => "DAILY".toList
  | .hourly => "HOURLY".toList
  | .minutely => "MINUTELY".toList
  | .secondly => "SECONDLY".toList

def weekdayToken : Weekday → List Char
  | .mo => "MO".toList
  | .tu => "TU".toList
  | .we => "WE".toList
  | .th => "TH".toList
  | .fr => "FR".toList
  | .sa => "SA".toList
  | .su => "SU".toList

def basicDate (date : Date) : List Char :=
  zeroPaddedInt 4 date.year ++ (zeroPadded 2 date.month ++ zeroPadded 2 date.day)

def basicDateTime (at_ : LocalDateTime) : List Char :=
  basicDate at_.date ++
    'T' :: (zeroPadded 2 at_.time.hour ++ (zeroPadded 2 at_.time.minute ++ zeroPadded 2 at_.time.second))

def renderUntil (local_ : LocalDateTime) : UntilForm → List Char
  | .date => basicDate local_.date
  | .floating => basicDateTime local_
  | .utc at_ => basicDateTime (Clock.wallOf at_) ++ ['Z']

def joined (values : List (List Char)) : List Char := [','].intercalate values

def formatNDay (nday : NDay) : List Char :=
  (match nday.nthOfPeriod with
    | some nth => signedDecimal nth
    | none => []) ++ weekdayToken nday.day

def pushList (values : List (List Char)) : Option (List Char) := if joined values = [] then none else some (joined values)

def pushByDay (days : List NDay) : Option (List Char) :=
  if days = [] then none else some (joined (days.map formatNDay))

def pushInts (values : List Int) : Option (List Char) := pushList (values.map signedDecimal)

def pushUints (values : List Nat) : Option (List Char) := pushList (values.map decimal)

def pushStrs (values : List String) : Option (List Char) := pushList (values.map String.toList)

/-- The parts after `FREQ` in their order, each with its value where it is written. -/
def optionalParts (rule : RecurrenceRule) (form : UntilForm) : List (String × Option (List Char)) :=
  [("INTERVAL", if rule.interval ≠ 1 then some (decimal rule.interval) else none),
    ("COUNT", match rule.bound with
      | .count n _ => some (decimal n)
      | _ => none),
    ("UNTIL", match rule.bound with
      | .untilTime t => some (renderUntil t form)
      | _ => none),
    ("BYSECOND", pushUints rule.bySecond),
    ("BYMINUTE", pushUints rule.byMinute),
    ("BYHOUR", pushUints rule.byHour),
    ("BYDAY", pushByDay rule.byDay),
    ("BYMONTHDAY", pushInts rule.byMonthDay),
    ("BYYEARDAY", pushInts rule.byYearDay),
    ("BYWEEKNO", pushInts rule.byWeekNo),
    ("BYMONTH", pushStrs rule.byMonth),
    ("BYSETPOS", pushInts rule.bySetPosition),
    ("WKST", if rule.firstDayOfWeek ≠ .mo then some (weekdayToken rule.firstDayOfWeek) else none)]

def pushPart (part : String × Option (List Char)) : List Char :=
  match part.2 with
  | some value => ';' :: (part.1.toList ++ '=' :: value)
  | none => []

def formatRrule (rule : RecurrenceRule) (form : UntilForm) : Except RruleFormatError (List Char) :=
  match rule.rscale with
  | some rscale => .error (.nonGregorian rscale)
  | none => .ok ("FREQ=".toList ++ (frequencyToken rule.frequency ++ (optionalParts rule form).flatMap pushPart))

end Rrule

namespace Rrule

open Recurrence

/-! ## Splitting at a character -/

section Split

variable {s t first : List Char} {c d : Char}

theorem not_mem_of_mem_splitOn (h : t ∈ s.splitOn c) : c ∉ t := by
  induction s generalizing t with
  | nil =>
    rw [List.splitOn_nil, List.mem_singleton] at h
    rw [h]
    exact List.not_mem_nil
  | cons d s ih =>
    rw [List.splitOn_cons_eq_if_modifyHead] at h
    split_ifs at h with hd
    · rcases List.mem_cons.mp h with rfl | hrest
      · exact List.not_mem_nil
      · exact ih hrest
    · cases hsplit : s.splitOn c with
      | nil => exact absurd hsplit (List.splitOn_ne_nil c s)
      | cons x rest =>
        rw [hsplit] at h ih
        rcases List.mem_cons.mp h with rfl | hrest
        · intro hmem
          rcases List.mem_cons.mp hmem with hsame | hin
          · exact hd (by rw [hsame]; exact beq_self_eq_true d)
          · exact ih List.mem_cons_self hin
        · exact ih (List.mem_cons_of_mem x hrest)

theorem mem_of_mem_splitOn (h : t ∈ s.splitOn c) (hd : d ∈ t) : d ∈ s := by
  have hjoin : List.intercalate [c] (s.splitOn c) = s := List.intercalate_splitOn c
  rw [← hjoin]
  generalize s.splitOn c = l at h
  induction l with
  | nil => cases h
  | cons x l ih =>
    cases l with
    | nil =>
      rw [List.intercalate_singleton]
      rwa [List.mem_singleton.mp h] at hd
    | cons y l =>
      rw [List.intercalate_cons_cons]
      rcases List.mem_cons.mp h with rfl | hrest
      · exact List.mem_append_left _ (List.mem_append_left _ hd)
      · exact List.mem_append_right _ (ih hrest)

end Split

/-! ## Keys and values -/

/-- What may stand after a key: trimmed and without semicolons. -/
def IsValue (value : List Char) : Prop := Trimmed value ∧ ';' ∉ value

/-- A key is written as it is read. -/
def IsKey (key : String) : Prop :=
  ';' ∉ key.toList ∧ '=' ∉ key.toList ∧ upper (trimChars key.toList) = key.toList

instance (key : String) : Decidable (IsKey key) := inferInstanceAs (Decidable (_ ∧ _ ∧ _))

variable {key : String}

theorem parsePart_written {value : List Char} (hkey : IsKey key) (hvalue : IsValue value) :
    parsePart (key.toList ++ '=' :: value) = some (key.toList, value) := by
  have hfree : ∀ d ∈ key.toList, d ≠ '=' := by
    rintro d hd rfl
    exact hkey.2.1 hd
  unfold parsePart
  rw [splitAtFirst_eq_some_iff.mpr ⟨rfl, hfree⟩]
  show some (upper (trimChars key.toList), trimChars value) = _
  rw [hkey.2.2, trimChars_of_trimmed hvalue.1]

def readPart (part : String × Option (List Char)) : Option (List Char × List Char) :=
  part.2.map fun value => (part.1.toList, value)

variable {parts : List (String × Option (List Char))}

theorem parseParts_written {first : List Char} (hfirst : ';' ∉ first)
    (hkeys : ∀ part ∈ parts, IsKey part.1) (hvalues : ∀ part ∈ parts, ∀ value ∈ part.2, IsValue value) :
    parseParts (first ++ parts.flatMap pushPart) = (parsePart first).toList ++ parts.filterMap readPart := by
  induction parts generalizing first with
  | nil =>
    rw [List.flatMap_nil, List.append_nil]
    unfold parseParts
    rw [List.splitOn_eq_singleton hfirst, List.filterMap_cons]
    cases parsePart first <;> rfl
  | cons part parts ih =>
    obtain ⟨key, value⟩ := part
    have hrest : ∀ start : List Char, ';' ∉ start → parseParts (start ++ parts.flatMap pushPart) =
        (parsePart start).toList ++ parts.filterMap readPart := fun start hstart =>
      ih hstart (fun p hp => hkeys p (List.mem_cons_of_mem _ hp)) fun p hp => hvalues p (List.mem_cons_of_mem _ hp)
    cases value with
    | none => exact hrest first hfirst
    | some value =>
      have hkey : IsKey key := hkeys _ List.mem_cons_self
      have hvalue : IsValue value := hvalues _ List.mem_cons_self value rfl
      have hpart : ';' ∉ key.toList ++ '=' :: value := by
        intro hmem
        rcases List.mem_append.mp hmem with hin | hin
        · exact hkey.1 hin
        · rcases List.mem_cons.mp hin with heq | hin
          · exact absurd heq (by decide)
          · exact hvalue.2 hin
      have hlater := hrest _ hpart
      rw [parsePart_written hkey hvalue] at hlater
      show parseParts (first ++ (';' :: (key.toList ++ '=' :: value) ++ parts.flatMap pushPart)) = _
      unfold parseParts at hlater ⊢
      rw [List.cons_append, List.splitOn_append_cons_self_of_not_mem hfirst, List.filterMap_cons, hlater]
      cases parsePart first <;> rfl

theorem get_written (hnodup : (parts.map Prod.fst).Nodup) :
    get (parts.filterMap readPart) key = (parts.find? fun part => part.1 = key).bind Prod.snd := by
  unfold get
  induction parts with
  | nil => rfl
  | cons part parts ih =>
    obtain ⟨hnew, hrest⟩ := List.nodup_cons.mp hnodup
    obtain ⟨first, value⟩ := part
    by_cases hkey : first = key
    · subst hkey
      rw [List.find?_cons_of_pos (by simp)]
      cases value with
      | some value =>
        rw [List.filterMap_cons_some (show readPart (first, some value) = some (first.toList, value) from rfl),
          List.find?_cons_of_pos (by simp)]
        rfl
      | none =>
        rw [List.filterMap_cons_none (show readPart (first, none) = none from rfl), ih hrest]
        have habsent : (parts.find? fun part => part.1 = first) = none := by
          refine List.find?_eq_none.mpr fun p hp hsame => hnew ?_
          exact List.mem_map.mpr ⟨p, hp, of_decide_eq_true hsame⟩
        rw [habsent]
        rfl
    · rw [List.find?_cons_of_neg (by simpa using hkey), ← ih hrest]
      cases value with
      | some value =>
        have hne : first.toList ≠ key.toList := fun heq => hkey (String.toList_inj.mp heq)
        rw [List.filterMap_cons_some (show readPart (first, some value) = some (first.toList, value) from rfl),
          List.find?_cons_of_neg (by simpa using hne)]
      | none => rw [List.filterMap_cons_none (show readPart (first, none) = none from rfl)]

/-! ## Lists -/

/-- What may stand between commas. -/
def IsEntry (entry : List Char) : Prop := Trimmed entry ∧ ';' ∉ entry ∧ ',' ∉ entry

section Lists

variable {α : Type} {values : List α} {write : α → List Char}

variable {entries : List (List Char)}

theorem joined_eq_nil_iff : joined entries = [] ↔ entries = [] ∨ entries = [[]] := by
  unfold joined
  cases entries with
  | nil => simp
  | cons first rest =>
    cases rest with
    | nil => simp
    | cons second rest => simp [List.intercalate_cons_cons]

theorem splitOn_joined (hne : entries ≠ []) (h : ∀ entry ∈ entries, IsEntry entry) :
    (joined entries).splitOn ',' = entries := List.splitOn_intercalate ',' (fun entry he => (h entry he).2.2) hne

theorem isValue_joined (h : ∀ entry ∈ entries, IsEntry entry) : IsValue (joined entries) := by
  refine ⟨trimmed_intercalate (by decide) fun entry he => (h entry he).1, fun hmem => ?_⟩
  unfold joined at hmem
  induction entries with
  | nil => cases hmem
  | cons first rest ih =>
    cases rest with
    | nil =>
      rw [List.intercalate_singleton] at hmem
      exact (h first List.mem_cons_self).2.1 hmem
    | cons second rest =>
      rw [List.intercalate_cons_cons] at hmem
      rcases List.mem_append.mp hmem with hin | hin
      · rcases List.mem_append.mp hin with hin | hin
        · exact (h first List.mem_cons_self).2.1 hin
        · exact absurd (List.mem_singleton.mp hin) (by decide)
      · exact ih (fun entry he => h entry (List.mem_cons_of_mem first he)) hin

theorem list_pushList {parse : List Char → Option α} (hentry : ∀ a ∈ values, IsEntry (write a))
    (hne : ∀ a ∈ values, write a ≠ []) (hparse : ∀ a ∈ values, parse (write a) = some a) :
    list (pushList (values.map write)) parse = values := by
  unfold pushList
  have hentries : ∀ entry ∈ values.map write, IsEntry entry := by
    intro entry he
    obtain ⟨a, ha, rfl⟩ := List.mem_map.mp he
    exact hentry a ha
  by_cases hnil : values = []
  · subst hnil
    rfl
  · have hjoined : joined (values.map write) ≠ [] := by
      intro hempty
      rcases joined_eq_nil_iff.mp hempty with hnone | hone
      · exact hnil (List.map_eq_nil_iff.mp hnone)
      · obtain ⟨a, rfl, ha⟩ := List.map_eq_singleton_iff.mp hone
        exact hne a List.mem_cons_self ha
    rw [if_neg hjoined]
    show ((joined (values.map write)).splitOn ',').filterMap _ = _
    rw [splitOn_joined (by simpa using hnil) hentries, List.filterMap_map]
    refine (List.filterMap_congr fun a ha => ?_).trans List.filterMap_some
    show parse (trimChars (write a)) = some a
    rw [trimChars_of_trimmed (hentry a ha).1, hparse a ha]

end Lists

end Rrule
end SyncEngine
