import Mathlib
import SyncEngine.Library.Whitespace
import SyncEngine.Mail.Stream

/-!
# Content lines and their values

Reading one logical line: its name, its parameters and its value, and the dates and times a value
holds; and writing them.
-/

namespace SyncEngine
namespace Ical

/-!
## Lines of an iCalendar document

A document is a list of physical lines, each with its terminator, folded into logical ones: a line
that starts with a space or a tab continues the one before it.  An edit is keyed by the logical line.
-/

abbrev Text := List Char

structure PhysicalLine where
  content : Text
  term : Text
deriving DecidableEq, Repr

namespace PhysicalLine

def text (line : PhysicalLine) : Text := line.content ++ line.term

def ended (content : Text) : PhysicalLine :=
  if content.getLast? = some '\r' then ⟨content.dropLast, ['\r', '\n']⟩ else ⟨content, ['\n']⟩

def isContinuation (line : PhysicalLine) : Bool :=
  match line.content with
  | c :: _ => c = ' ' || c = '\t'
  | [] => false

end PhysicalLine

/-- The physical lines of a text that goes on after `read`, which holds no line feed. -/
def physicalFrom (read : Text) : Text → List PhysicalLine
  | [] => if read = [] then [] else [⟨read, []⟩]
  | c :: rest =>
    if c = '\n' then PhysicalLine.ended read :: physicalFrom [] rest
    else physicalFrom (read ++ [c]) rest

def physicalLines (raw : Text) : List PhysicalLine := physicalFrom [] raw

def logicalGroups : List PhysicalLine → List (List PhysicalLine)
  | [] => []
  | line :: rest =>
    match rest, logicalGroups rest with
    | next :: _, group :: groups =>
      if next.isContinuation then (line :: group) :: groups else [line] :: group :: groups
    | _, groups => [line] :: groups

inductive LineEdit
  | keep
  | replace (text : Text)
  | remove
deriving DecidableEq, Repr

/-- Text spliced in before a logical line, and what becomes of the line itself. -/
structure Edit where
  before : Text
  line : LineEdit
deriving DecidableEq, Repr

def Edit.none : Edit := ⟨[], .keep⟩

abbrev Edits := Nat → Edit

namespace Edits

def empty : Edits := fun _ => .none

def setLine (edits : Edits) (index : Nat) (line : LineEdit) : Edits :=
  Function.update edits index { edits index with line := line }

def replace (edits : Edits) (index : Nat) (text : Text) : Edits := edits.setLine index (.replace text)

def remove (edits : Edits) (index : Nat) : Edits := edits.setLine index .remove

def spliceBefore (edits : Edits) (index : Nat) (text : Text) : Edits :=
  Function.update edits index { edits index with before := (edits index).before ++ text }

end Edits

/-! ## Folding -/

def foldWidth : Nat := 75

/-- The rest of a logical line, `octets` into a physical one. -/
def foldFrom (term : Text) (octets : Nat) : Text → Text
  | [] => term
  | c :: rest =>
    if octets + c.utf8Size > foldWidth then
      term ++ ' ' :: c :: foldFrom term (1 + c.utf8Size) rest
    else c :: foldFrom term (octets + c.utf8Size) rest

/-- A logical line in physical lines of at most 75 octets, terminated. -/
def foldLine (line term : Text) : Text := foldFrom term 0 line

/-! ## Documents -/

structure Document where
  groups : List (List PhysicalLine)
deriving DecidableEq, Repr

namespace Document

def parse (raw : Text) : Document := ⟨logicalGroups (physicalLines raw)⟩

def len (doc : Document) : Nat := doc.groups.length

def group (doc : Document) (index : Nat) : List PhysicalLine := doc.groups.getD index []

def logical (doc : Document) (index : Nat) : Text :=
  match doc.group index with
  | [] => []
  | first :: rest => first.content ++ rest.flatMap fun line => line.content.drop 1

def terminator (doc : Document) (index : Nat) : Text :=
  match (doc.group index).getLast? with
  | some line => if line.term = [] then ['\r', '\n'] else line.term
  | none => ['\r', '\n']

def fold (doc : Document) (index : Nat) (line : Text) : Text := foldLine line (doc.terminator index)

def renderGroup (doc : Document) (edits : Edits) (index : Nat) : Text :=
  (edits index).before ++
    match (edits index).line with
    | .keep => (doc.group index).flatMap PhysicalLine.text
    | .replace text => doc.fold index text
    | .remove => []

/-- The logical lines from `first` on up to but not `last`, with the edits. -/
def renderRange (doc : Document) (first last : Nat) (edits : Edits) : Text :=
  (List.range' first (last - first)).flatMap (doc.renderGroup edits)

def render (doc : Document) (edits : Edits) : Text := doc.renderRange 0 doc.len edits

end Document

/-! ## Nothing is lost -/

theorem PhysicalLine.text_ended (content : Text) : (PhysicalLine.ended content).text = content ++ ['\n'] := by
  unfold ended
  by_cases h : content.getLast? = some '\r'
  · rw [if_pos h]
    have hne : content ≠ [] := by
      intro hnil
      rw [hnil] at h
      cases h
    have hlast : content.getLast hne = '\r' := by
      rw [List.getLast?_eq_some_getLast hne] at h
      exact Option.some.inj h
    have hsplit : content.dropLast ++ ['\r'] = content := by
      rw [← hlast]
      exact List.dropLast_append_getLast hne
    show content.dropLast ++ ['\r', '\n'] = _
    calc content.dropLast ++ ['\r', '\n'] = (content.dropLast ++ ['\r']) ++ ['\n'] := by simp
      _ = content ++ ['\n'] := by rw [hsplit]
  · rw [if_neg h]
    rfl

theorem flatMap_physicalFrom (read rest : Text) : (physicalFrom read rest).flatMap PhysicalLine.text = read ++ rest := by
  induction rest generalizing read with
  | nil =>
    unfold physicalFrom
    by_cases h : read = []
    · simp [h]
    · simp [h, PhysicalLine.text]
  | cons c rest ih =>
    unfold physicalFrom
    by_cases h : c = '\n'
    · rw [if_pos h, List.flatMap_cons, PhysicalLine.text_ended, ih, h]
      simp
    · rw [if_neg h, ih]
      simp

theorem flatten_logicalGroups (lines : List PhysicalLine) : (logicalGroups lines).flatten = lines := by
  induction lines with
  | nil => rfl
  | cons line rest ih =>
    unfold logicalGroups
    cases rest with
    | nil => rfl
    | cons next rest' =>
      cases hgroups : logicalGroups (next :: rest') with
      | nil =>
        rw [hgroups] at ih
        cases ih
      | cons group groups =>
        rw [hgroups] at ih
        by_cases hnext : next.isContinuation = true
        · simp only [hnext, if_true, List.flatten_cons, List.cons_append]
          rw [← List.flatten_cons, ih]
        · simp only [hnext, if_false, List.flatten_cons, Bool.false_eq_true]
          rw [← List.flatten_cons, ih]
          rfl

namespace Document

theorem flatten_parse (raw : Text) : (parse raw).groups.flatten.flatMap PhysicalLine.text = raw := by
  show (logicalGroups (physicalLines raw)).flatten.flatMap PhysicalLine.text = raw
  rw [flatten_logicalGroups]
  exact flatMap_physicalFrom [] raw

theorem render_eq (doc : Document) (edits : Edits) :
    doc.render edits = (List.range doc.len).flatMap (doc.renderGroup edits) := by
  unfold render renderRange
  rw [Nat.sub_zero, List.range_eq_range']

theorem map_group (doc : Document) : (List.range doc.len).map doc.group = doc.groups := by
  apply List.ext_getElem
  · simp [len]
  · intro i h₁ h₂
    simp [group, List.getD_eq_getElem?_getD, List.getElem?_eq_getElem h₂]

theorem render_parse (raw : Text) : (parse raw).render Edits.empty = raw := by
  have hgroup : (parse raw).renderGroup Edits.empty =
      fun index => ((parse raw).group index).flatMap PhysicalLine.text := rfl
  calc (parse raw).render Edits.empty
      = ((List.range (parse raw).len).map (parse raw).group).flatMap (fun group => group.flatMap PhysicalLine.text) := by
        rw [render_eq, hgroup, List.flatMap_map]
    _ = (parse raw).groups.flatten.flatMap PhysicalLine.text := by
        rw [map_group, ← List.flatMap_id, List.flatMap_assoc]
        rfl
    _ = raw := flatten_parse raw

end Document

/-- Why a document or an edit of it is refused. -/
inductive IcalError
  | badDate (value : Text)
  | badDateTime (value : Text)
  | badTzid (name : Text)
  | noVevent
  | noMaster
  | noEndVcalendar
  | noDtstart
  | formChange (name : Text)
  | endBeforeStart
  | recurrenceOnOccurrence
  | inviteesOnOccurrence
  | conferenceOnOccurrence
  | overrideOfSingle
  | splitNeedsTimes
  | excludeFromSingle
  | untilNeedsInstant
  | organiserRemoved
  | organiserEdited
  | other (message : Text)
deriving DecidableEq, Repr

def upper (text : Text) : Text := text.map Char.toUpper

def lower (text : Text) : Text := text.map Char.toLower

def eqIgnoreCase (a b : Text) : Bool := upper a = upper b

/-! ## Splitting -/

/-- The text before and after the first delimiter outside quotes. -/
def splitOnceUnquotedFrom (delim : Char) (quoted : Bool) : Text → Option (Text × Text)
  | [] => none
  | c :: rest =>
    if c = '"' then
      (splitOnceUnquotedFrom delim (!quoted) rest).map fun (head, tail) => (c :: head, tail)
    else if c = delim && !quoted then some ([], rest)
    else (splitOnceUnquotedFrom delim quoted rest).map fun (head, tail) => (c :: head, tail)

def splitOnceUnquoted (text : Text) (delim : Char) : Option (Text × Text) :=
  splitOnceUnquotedFrom delim false text

def splitUnquotedFrom (delim : Char) (quoted : Bool) (segment : Text) : Text → List Text
  | [] => [segment]
  | c :: rest =>
    if c = '"' then splitUnquotedFrom delim (!quoted) (segment ++ [c]) rest
    else if c = delim && !quoted then segment :: splitUnquotedFrom delim quoted [] rest
    else splitUnquotedFrom delim quoted (segment ++ [c]) rest

def splitUnquoted (text : Text) (delim : Char) : List Text := splitUnquotedFrom delim false [] text

/-- The text before and after the first `c`. -/
def splitOnce (text : Text) (c : Char) : Option (Text × Text) :=
  if c ∈ text then some (text.takeWhile (· ≠ c), (text.dropWhile (· ≠ c)).drop 1) else none

/-- The name of a property: everything before the first `;` or `:`. -/
def propertyName (logical : Text) : Text := logical.takeWhile fun c => c ≠ ';' && c ≠ ':'

/-- The component a `BEGIN` or `END` line names. -/
def componentName (logical : Text) : Text :=
  match splitOnceUnquoted logical ':' with
  | some (_, value) => upper (trimChars value)
  | none => []

/-! ## Content lines -/

structure ContentLine where
  name : Text
  params : List (Text × Text)
  value : Text
deriving DecidableEq, Repr

def ContentLine.param (line : ContentLine) (name : Text) : Option Text :=
  (line.params.find? fun p => eqIgnoreCase p.1 name).map Prod.snd

def decodeParam : Text → Text
  | '^' :: 'n' :: rest => '\n' :: decodeParam rest
  | '^' :: '\'' :: rest => '"' :: decodeParam rest
  | '^' :: '^' :: rest => '^' :: decodeParam rest
  | c :: rest => c :: decodeParam rest
  | [] => []

/-- Without the quotes around it, where both are there. -/
def unquote (value : Text) : Text :=
  match value with
  | '"' :: rest => if rest.getLast? = some '"' then rest.dropLast else value
  | _ => value

def parseParam (segment : Text) : Option (Text × Text) :=
  (splitOnce segment '=').map fun (key, value) =>
    (upper (trimChars key), decodeParam (unquote (trimChars value)))

def tokenize (line : Text) : Option ContentLine :=
  match splitOnceUnquoted line ':' with
  | none => none
  | some (head, value) =>
    match splitUnquoted head ';' with
    | [] => none
    | name :: segments =>
      if name = [] then none
      else some ⟨upper name, segments.filterMap parseParam, value⟩

def stripReturn (line : Text) : Text := if line.getLast? = some '\r' then line.dropLast else line

def unfoldLine (lines : List Text) (raw : Text) : List Text :=
  let line := stripReturn raw
  match line, lines.getLast? with
  | c :: rest, some last =>
    if c = ' ' || c = '\t' then lines.dropLast ++ [last ++ rest] else lines ++ [line]
  | _, _ => lines ++ [line]

def unfold (text : Text) : List Text := (text.splitOn '\n').foldl unfoldLine []

def contentLines (text : Text) : List ContentLine := (unfold text).filterMap tokenize

/-! ## Dates and times -/

def isLeap (year : Nat) : Bool := year % 4 = 0 && (year % 100 ≠ 0 || year % 400 = 0)

def daysInMonth (year month : Nat) : Nat :=
  if month = 2 then if isLeap year then 29 else 28
  else if month = 4 || month = 6 || month = 9 || month = 11 then 30
  else 31

/-- A day of the years 0 to 9999. -/
structure Date where
  year : Nat
  month : Nat
  day : Nat
deriving DecidableEq, Repr

def Date.new? (year month day : Nat) : Option Date :=
  if 1 ≤ month && month ≤ 12 && 1 ≤ day && day ≤ daysInMonth year month then
    some ⟨year, month, day⟩
  else none

structure LocalDateTime where
  date : Date
  hour : Nat
  minute : Nat
  second : Nat
deriving DecidableEq, Repr

def LocalDateTime.new? (year month day hour minute second : Nat) : Option LocalDateTime :=
  if hour < 24 && minute < 60 && second < 60 then
    (Date.new? year month day).map fun date => ⟨date, hour, minute, second⟩
  else none

inductive TimeZoneId
  | iana (name : Text)
  | custom (name : Text)
deriving DecidableEq, Repr

def TimeZoneId.name : TimeZoneId → Text
  | .iana name => name
  | .custom name => name

def TimeZoneId.utc : TimeZoneId := .iana "Etc/UTC".toList

inductive CalendarDateTime
  | date (date : Date)
  | floating (at_ : LocalDateTime)
  | zoned (at_ : LocalDateTime) (zone : TimeZoneId)
deriving DecidableEq, Repr

namespace CalendarDateTime

def hasSameForm : CalendarDateTime → CalendarDateTime → Bool
  | .date _, .date _ => true
  | .floating _, .floating _ => true
  | .zoned _ zone, .zoned _ zone' => zone = zone'
  | _, _ => false

def clock : CalendarDateTime → Option LocalDateTime
  | .date _ => none
  | .floating at_ => some at_
  | .zoned at_ _ => some at_

end CalendarDateTime

def Date.columns (d : Date) : List Nat := [d.year, d.month, d.day]

def LocalDateTime.columns (t : LocalDateTime) : List Nat :=
  t.date.columns ++ [t.hour, t.minute, t.second]

/-- Whether there is a duration from one value to another: both are days or both are clocks, and the
second is not before the first. -/
def CalendarDateTime.hasDurationUntil : CalendarDateTime → CalendarDateTime → Bool
  | .date start, .date finish => ¬finish.columns < start.columns
  | start, finish =>
    match start.clock, finish.clock with
    | some start, some finish => ¬finish.columns < start.columns
    | _, _ => false

def isDigits (text : Text) : Bool := text.all Char.isDigit

def number (digits : Text) : Nat := digits.foldl (fun n c => 10 * n + (c.toNat - '0'.toNat)) 0

def field (value : Text) (first last : Nat) : Nat := number ((value.drop first).take (last - first))

def parseDate (value : Text) : Except IcalError Date :=
  if value.length ≠ 8 || !isDigits value then .error (.badDate value)
  else
    match Date.new? (field value 0 4) (field value 4 6) (field value 6 8) with
    | some date => .ok date
    | none => .error (.badDate value)

def parseLocal (value : Text) : Except IcalError LocalDateTime :=
  if value.length = 15 && (value.drop 8).head?.any (fun c => c = 'T' || c = 't') &&
      isDigits (value.take 8) && isDigits (value.drop 9) then
    match LocalDateTime.new? (field value 0 4) (field value 4 6) (field value 6 8)
        (field value 9 11) (field value 11 13) (field value 13 15) with
    | some at_ => .ok at_
    | none => .error (.badDateTime value)
  else .error (.badDateTime value)

/-- The zone a `TZID` names: a Windows zone by the table of them, one that looks like an IANA name,
or some other. -/
def resolveZoneName (windowsToIana : Text → Option Text) (name : Text) : Option TimeZoneId :=
  match windowsToIana name with
  | some iana => if iana = [] then none else some (.iana iana)
  | none =>
    if '/' ∈ name && !"tzone:".toList.isPrefixOf name then some (.iana name)
    else if name = [] then none
    else some (.custom name)

def parseCalendarDateTime (windowsToIana : Text → Option Text) (line : ContentLine) :
    Except IcalError CalendarDateTime :=
  let value := trimChars line.value
  let isDate := (line.param "VALUE".toList).any (fun v => eqIgnoreCase v "DATE".toList) ||
    ((value.map Char.utf8Size).sum = 8 && !('T' ∈ value || 't' ∈ value))
  if isDate then (parseDate value).map .date
  else if value.getLast? = some 'Z' || value.getLast? = some 'z' then
    (parseLocal value.dropLast).map fun at_ => .zoned at_ .utc
  else
    match parseLocal value, line.param "TZID".toList with
    | .error e, _ => .error e
    | .ok at_, some tzid =>
      match resolveZoneName windowsToIana tzid with
      | some zone => .ok (.zoned at_ zone)
      | none => .error (.badTzid tzid)
    | .ok at_, none => .ok (.floating at_)

/-! ## Writing values -/

def padded (width n : Nat) : Text := (Mail.CalendarDate.padded width n).toList

def formatDate (date : Date) : Text := padded 4 date.year ++ padded 2 date.month ++ padded 2 date.day

def formatLocal (at_ : LocalDateTime) : Text :=
  formatDate at_.date ++ 'T' :: padded 2 at_.hour ++ padded 2 at_.minute ++ padded 2 at_.second

def dateTimeLine (name : Text) : CalendarDateTime → Text
  | .date date => name ++ ";VALUE=DATE:".toList ++ formatDate date
  | .floating at_ => name ++ ':' :: formatLocal at_
  | .zoned at_ zone =>
    if zone = .utc then name ++ ':' :: formatLocal at_ ++ ['Z']
    else name ++ ";TZID=".toList ++ zone.name ++ ':' :: formatLocal at_

def formatUtc (instant : UtcDateTime) : Text :=
  let date := Mail.CalendarDate.ofInstant instant
  let seconds := instant.nanos % Mail.CalendarDate.nanosPerDay / second
  let sign := if date.year < 0 then ['-'] else []
  sign ++ padded (4 - sign.length) date.year.natAbs ++ padded 2 date.month ++ padded 2 date.day ++
    'T' :: padded 2 (seconds / 3600) ++ padded 2 (seconds / 60 % 60) ++ padded 2 (seconds % 60) ++ ['Z']

def normalizeBreaks : Text → Text
  | '\r' :: '\n' :: rest => '\n' :: normalizeBreaks rest
  | '\r' :: rest => '\n' :: normalizeBreaks rest
  | c :: rest => c :: normalizeBreaks rest
  | [] => []

def escapeChar (c : Char) : Text :=
  if c = '\\' then ['\\', '\\']
  else if c = ';' then ['\\', ';']
  else if c = ',' then ['\\', ',']
  else if c = '\n' then ['\\', 'n']
  else [c]

def escapeText (value : Text) : Text := (normalizeBreaks value).flatMap escapeChar

end Ical
end SyncEngine
