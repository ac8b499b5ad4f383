import SyncEngine.Google.Conferences
import SyncEngine.Ical.DateTimes
import SyncEngine.Patch

/-!
# Events of Google Calendar

An event is read from the object Google gives of it.  The lines of its recurrence and the texts of its times are cut by
byte offsets.  An entry that names a series is read as what it does to an occurrence of it, and folded into the series.
-/

namespace SyncEngine
namespace Google

open Panicking (sliceTo sliceFrom slice index find? ofResult orThrow)
open Recurrence (Date Time LocalDateTime CalendarDateTime TimeZoneId RecurrenceRule)

/-! ## Errors -/

inductive IdError
  | empty
  | tooLong (limit actual : Nat)
deriving DecidableEq

/-- What a message says of an object that cannot be read. -/
inductive GoogleError
  | missingString (key : String)
  | badId (what : String) (e : IdError)
  | badEventUid (e : IdError)
  | noEndpoint (key : String)
  | badAllDay (key date : String)
  | badDateTime (key raw : String) (e : Clock.TimeError)
  | badIanaZone (name : String) (e : Clock.TimeError)
  | badEventTimes (e : Clock.TimeError)
  | badOverrideTimes (e : Clock.TimeError)
  | badOverridePatch (e : PatchError)
  | badDatetime (key raw : String) (e : Clock.TimeError)
  | badRrule (e : Rrule.RruleParseError)
  | badExrule (e : Rrule.RruleParseError)

abbrev Reading (α : Type) : Type := Panicking GoogleError α

/-! ## Fields -/

def reqStr (value : Json) (key : String) : Except GoogleError String :=
  match value.optStr key with
  | some s => .ok s
  | none => .error (.missingString key)

def boolField (value : Json) (key : String) : Bool :=
  match value.get key with
  | some (.bool b) => b
  | _ => false

def wrapId {α : Type} (result : Except IdError α) (what : String) : Except GoogleError α :=
  result.mapError (.badId what)

def newProviderKey (value : String) : Except IdError ProviderKey := if value = "" then .error .empty else .ok value

def newUid (value : String) : Except IdError String :=
  if value = "" then .error .empty
  else if 1024 < value.utf8ByteSize then .error (.tooLong 1024 value.utf8ByteSize)
  else .ok value

def qualified (calendar event : String) : String := calendar ++ "/" ++ event

def eventKey (calendar event : String) : Except GoogleError ProviderKey :=
  wrapId (newProviderKey (qualified calendar event)) "event id"

def ofParsed {α : Type} (f : Clock.TimeError → GoogleError) (p : Clock.Parsed α) : Reading α := Panicking.mapError f p

/-- Without the run of digits after the first point. -/
def stripFractional (s : List Char) : Reading (List Char) :=
  match find? (· = '.') s with
  | some dot => do
    let rest ← sliceFrom s (dot + 1)
    let finish := ((find? (fun c => !c.isDigit) rest).map (dot + 1 + ·)).getD (Utf8.size s)
    let before ← sliceTo s dot
    let after ← sliceFrom s finish
    return before ++ after
  | none => return s

def datetime (value : Json) (key : String) : Reading (Option UtcDateTime) :=
  match value.optStr key with
  | none => pure none
  | some raw => do
    let cleaned ← stripFractional raw.toList
    some <$> ofParsed (.badDatetime key raw) (Clock.parseRfc3339 cleaned)

/-! ## Times -/

def isDesignator (c : Char) : Bool := c = '+' || c = '-' || c = 'Z' || c = 'z'

/-- The text before the zone of a date-time. -/
def stripOffset (s : List Char) : Reading (List Char) :=
  match find? (· = 'T') s with
  | some t => do
    let time ← sliceFrom s (t + 1)
    match find? isDesignator time with
    | some off => sliceTo s (t + 1 + off)
    | none => return s
  | none => return s

def parseDate (s : List Char) : Option Date :=
  match s.splitOn '-' with
  | [y, m, d] => do
    let y ← parseSigned 32 y
    let m ← parseUnsigned 8 m
    let d ← parseUnsigned 8 d
    Date.new? y m d
  | _ => none

def newIanaZone (name : String) : Except Clock.TimeError TimeZoneId :=
  if name = "" then .error .empty else .ok (.iana name)

/-- The zone of an endpoint: its own, the calendar's, or UTC. -/
def zoneNameOf (obj : Json) (defaultZone : Option String) : String := ((obj.optStr "timeZone").or defaultZone).getD "UTC"

def parseTimed (obj : Json) (key : String) (defaultZone : Option String) : Reading CalendarDateTime := do
  let raw ← ofResult (reqStr obj "dateTime")
  let wall ← stripOffset raw.toList
  let local_ ← ofParsed (.badDateTime key raw) (Clock.parseLocalDateTime wall)
  let name := zoneNameOf obj defaultZone
  let zone ← ofResult ((newIanaZone name).mapError (.badIanaZone name))
  return .zoned local_ zone

def parseEndpoint (value : Json) (key : String) (defaultZone : Option String) : Reading CalendarDateTime :=
  match value.get key with
  | none => throw (.noEndpoint key)
  | some obj =>
    match obj.optStr "date" with
    | some date => .date <$> orThrow (.badAllDay key date) (parseDate date.toList)
    | none => parseTimed obj key defaultZone

/-! ## Recurrence dates -/

section Dates

variable {ε : Type}

def digits (value : List Char) (i j : Nat) : Panicking Ical.IcalError Nat := do
  let part ← slice value i j
  orThrow (.other value) (parseUnsigned 32 part)

def allDigits (s : List Char) : Bool := s.all Char.isDigit

def parseBasicDate (value : List Char) : Panicking Ical.IcalError Date :=
  if Utf8.size value ≠ 8 || !allDigits value then throw (.badDate value)
  else do
    let year ← digits value 0 4
    let month ← digits value 4 6
    let day ← digits value 6 8
    orThrow (.badDate value) (Date.new? year month day)

/-- Whether the ninth byte is a `T` and the others are digits. -/
def wellFormed (value : List Char) : Panicking Ical.IcalError Bool :=
  if Utf8.size value ≠ 15 then pure false
  else do
    let b ← index value 8
    if b ≠ Utf8.ascii 'T' && b ≠ Utf8.ascii 't' then return false
    else
      let date ← sliceTo value 8
      if !allDigits date then return false
      else
        let time ← sliceFrom value 9
        return allDigits time

def parseBasicLocal (value : List Char) : Panicking Ical.IcalError LocalDateTime := do
  if !(← wellFormed value) then throw (.badDateTime value)
  else
    let year ← digits value 0 4
    let month ← digits value 4 6
    let day ← digits value 6 8
    let hour ← digits value 9 11
    let minute ← digits value 11 13
    let second ← digits value 13 15
    orThrow (.badDateTime value) (Rrule.newLocalDateTime year month day hour minute second)

def zoneId : Ical.TimeZoneId → TimeZoneId
  | .iana name => .iana (String.ofList name)
  | .custom name => .custom (String.ofList name)

def parseCalendarDateTime (line : Ical.ContentLine) : Panicking Ical.IcalError CalendarDateTime := do
  let value := trimChars line.value
  let isDate := (line.param "VALUE".toList).any (fun v => Ical.eqIgnoreCase v "DATE".toList) ||
    (Utf8.size value = 8 && !('T' ∈ value || 't' ∈ value))
  if isDate then .date <$> parseBasicDate value
  else if value.getLast? = some 'Z' || value.getLast? = some 'z' then
    (CalendarDateTime.zoned · (.iana "Etc/UTC")) <$> parseBasicLocal value.dropLast
  else
    let local_ ← parseBasicLocal value
    match line.param "TZID".toList with
    | some tzid => do
      let zone ← orThrow (.badTzid tzid) (Ical.resolveZoneName Ical.windowsToIana tzid)
      return .zoned local_ (zoneId zone)
    | none => return .floating local_

def parseDateTimeList (line : Ical.ContentLine) : Panicking ε (List CalendarDateTime) := do
  let read ← (line.value.splitOn ',').mapM fun entry =>
    (parseCalendarDateTime { line with value := entry }).toOption
  return read.filterMap id

def parseRecurrenceDates (line : List Char) : Panicking ε (List CalendarDateTime) :=
  match (Ical.contentLines line).head? with
  | some line => parseDateTimeList line
  | none => return []

end Dates

/-! ## Recurrence -/

structure Series where
  rules : List RecurrenceRule
  excludedRules : List RecurrenceRule
  overrides : Keyed LocalDateTime RecurrenceOverride

namespace Series

def empty : Series := ⟨[], [], Keyed.empty⟩

def insert (series : Series) (at_ : LocalDateTime) (what : RecurrenceOverride) : Series :=
  { series with overrides := series.overrides.put at_ what }

def exclude (series : Series) (value : CalendarDateTime) : Series := series.insert (localOf value) .excluded

/-- Adds an occurrence, unless something is done to it already. -/
def add (series : Series) (value : CalendarDateTime) : Series :=
  match series.overrides.get? (localOf value) with
  | some _ => series
  | none => series.insert (localOf value) (.patch .empty)

end Series

def startsWithProperty (line : List Char) (name : String) : Reading Bool :=
  if Utf8.size line ≤ name.utf8ByteSize then pure false
  else do
    let front ← sliceTo line name.utf8ByteSize
    if !Ical.eqIgnoreCase front name.toList then return false
    else
      let b ← index line name.utf8ByteSize
      return b = Utf8.ascii ':' || b = Utf8.ascii ';'

/-- A line that is no rule: the dates that are left out, or those that are added. -/
def recurrenceDates (series : Series) (line : List Char) : Reading Series := do
  if ← startsWithProperty line "EXDATE" then
    let dates ← parseRecurrenceDates line
    return dates.foldl Series.exclude series
  else if ← startsWithProperty line "RDATE" then
    let dates ← parseRecurrenceDates line
    return dates.foldl Series.add series
  else return series

def recurrenceLine (series : Series) (line : List Char) : Reading Series :=
  match stripFront "RRULE:".toList line with
  | some rule => do
    let rule ← ofResult ((Rrule.parseRrule rule).mapError .badRrule)
    return { series with rules := series.rules ++ [rule] }
  | none =>
    match stripFront "EXRULE:".toList line with
    | some rule => do
      let rule ← ofResult ((Rrule.parseRrule rule).mapError .badExrule)
      return { series with excludedRules := series.excludedRules ++ [rule] }
    | none => recurrenceDates series line

def recurrenceLines (lines : List Json) : List (List Char) := lines.filterMap fun line => line.asStr.map String.toList

def recurrence (value : Json) : Reading (Option Series) :=
  match (value.get "recurrence").bind Json.asArray with
  | none => pure none
  | some lines => do
    let series ← (recurrenceLines lines).foldlM recurrenceLine Series.empty
    return if series.rules.isEmpty then none else some series

/-! ## People and places -/

inductive ParticipationStatus
  | needsAction
  | accepted
  | declined
  | tentative
deriving DecidableEq

inductive ParticipantRole
  | owner
  | attendee
  | optional
deriving DecidableEq

structure Participant where
  name : Option String
  email : String
  isResource : Bool
  roles : List ParticipantRole
  participationStatus : ParticipationStatus
  expectReply : Bool
deriving DecidableEq

def address (person : Json) : Option (String × Option String) :=
  (nonempty person "email").map (·, person.optStr "displayName")

def organizer (addr : String) (name : Option String) : Participant :=
  ⟨name, addr, false, [.owner], .accepted, false⟩

def attendeeFromJson (attendee : Json) (addr : String) (name : Option String) : Participant where
  name
  email := addr
  isResource := boolField attendee "resource"
  roles := if boolField attendee "optional" then [.optional] else [.attendee]
  participationStatus :=
    match attendee.optStr "responseStatus" with
    | some "accepted" => .accepted
    | some "declined" => .declined
    | some "tentative" => .tentative
    | _ => .needsAction
  expectReply := true

def mergeAttendee (existing entry : Participant) : Participant where
  name := entry.name.or existing.name
  email := existing.email
  isResource := entry.isResource || existing.isResource
  roles := (existing.roles ++ entry.roles).dedup
  participationStatus := entry.participationStatus
  expectReply := entry.expectReply

def addParticipant (entry : Participant) : List Participant → List Participant
  | [] => [entry]
  | p :: rest =>
    if asciiLower p.email.toList = asciiLower entry.email.toList then mergeAttendee p entry :: rest
    else p :: addParticipant entry rest

def participants (value : Json) : List Participant :=
  let owner := ((value.get "organizer").bind address).map fun person => organizer person.1 person.2
  (((value.get "attendees").bind Json.asArray).getD []).foldl
    (fun out attendee =>
      match address attendee with
      | some (addr, name) => addParticipant (attendeeFromJson attendee addr name) out
      | none => out)
    owner.toList

def locations (value : Json) : List String := (nonempty value "location").toList

/-! ## Events -/

inductive EventStatus
  | confirmed
  | cancelled
  | tentative
deriving DecidableEq

inductive Privacy
  | pub
  | priv
  | secret
deriving DecidableEq

structure Event where
  id : ProviderKey
  uid : String
  calendar : String
  start : CalendarDateTime
  duration : Duration
  title : String
  description : Option String
  status : EventStatus
  free : Bool
  privacy : Privacy
  created : Option UtcDateTime
  updated : Option UtcDateTime
  recurrence : Option Series
  participants : List Participant
  locations : List String
  conferences : List Conference
  etag : Option String
  /-- The object as it was given. -/
  raw : Json

def statusOf (value : Json) : EventStatus :=
  match value.optStr "status" with
  | some "cancelled" => .cancelled
  | some "tentative" => .tentative
  | _ => .confirmed

def privacyOf (value : Json) : Privacy :=
  match value.optStr "visibility" with
  | some "private" => .priv
  | some "confidential" => .secret
  | _ => .pub

def uidOf (value : Json) (rawId : String) : Except GoogleError String :=
  (newUid ((nonempty value "iCalUID").getD rawId)).mapError .badEventUid

/-- The conferences of the field for them, and those that the location and the description name. -/
def allConferences (htmlToText : String → String) (value : Json) : Reading (List Conference) := do
  let found ← conferences htmlToText value
  addDetected found [] (locations value) (nonempty value "description")

def eventFromJson (htmlToText : String → String) (value : Json) (calendar : String) (defaultZone : Option String) :
    Reading Event := do
  let rawId ← ofResult (reqStr value "id")
  let id ← ofResult (eventKey calendar rawId)
  let uid ← ofResult (uidOf value rawId)
  let start ← parseEndpoint value "start" defaultZone
  let finish ← parseEndpoint value "end" defaultZone
  let duration ← ofResult ((durationUntil start finish).mapError .badEventTimes)
  let created ← datetime value "created"
  let updated ← datetime value "updated"
  let recurrence ← recurrence value
  let conferences ← allConferences htmlToText value
  return {
    id, uid, calendar, start, duration
    title := (value.optStr "summary").getD ""
    description := nonempty value "description"
    status := statusOf value
    free := value.optStr "transparency" = some "transparent"
    privacy := privacyOf value
    created, updated, recurrence
    participants := participants value
    locations := locations value
    conferences
    etag := value.optStr "etag"
    raw := value }

/-! ## Occurrences that were changed -/

/-- What an entry does to an occurrence of a series, by the occurrence's original start. -/
structure PendingOverride where
  master : ProviderKey
  at_ : LocalDateTime
  what : RecurrenceOverride

def builderOf (value : Json) (start : CalendarDateTime) (duration : Duration) : OverrideBuilder :=
  let builder := (OverrideBuilder.start [] start).duration duration
  let builder := ((value.optStr "summary").map builder.title).getD builder
  let builder := ((nonempty value "description").map builder.description).getD builder
  ((nonempty value "location").map builder.locationNamed).getD builder

def patchOf (value : Json) (defaultZone : Option String) : Reading RecurrenceOverride := do
  let start ← parseEndpoint value "start" defaultZone
  let finish ← parseEndpoint value "end" defaultZone
  let duration ← ofResult ((durationUntil start finish).mapError .badOverrideTimes)
  ofResult ((builderOf value start duration).build.mapError .badOverridePatch)

def isCancelled (value : Json) : Bool := value.optStr "status" = some "cancelled"

def whatOf (value : Json) (defaultZone : Option String) : Reading RecurrenceOverride :=
  if isCancelled value then pure .excluded else patchOf value defaultZone

def pendingOverride (value : Json) (calendar : String) (defaultZone : Option String) : Reading PendingOverride := do
  let seriesId ← ofResult (reqStr value "recurringEventId")
  let master ← ofResult (eventKey calendar seriesId)
  let original ← parseEndpoint value "originalStartTime" defaultZone
  let what ← whatOf value defaultZone
  return ⟨master, localOf original, what⟩

/-- The overrides of a series go to the first event under its key. -/
def foldInto : List Event → List PendingOverride → List Event
  | [], _ => []
  | event :: events, overrides =>
    let own := overrides.filter (·.master = event.id)
    let rest := overrides.filter (·.master ≠ event.id)
    if own.isEmpty then event :: foldInto events rest
    else
      let series := own.foldl (fun series entry => series.insert entry.at_ entry.what) (event.recurrence.getD .empty)
      { event with recurrence := some series } :: foldInto events rest

end Google
end SyncEngine
