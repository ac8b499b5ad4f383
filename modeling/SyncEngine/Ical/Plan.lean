import SyncEngine.Ical.Content

/-!
# Planning an edit of an event

The line edits a patch implies for one event.  What the planner takes from elsewhere is gathered in `Outside`: the
table of Windows zones, the form of a rule, and the model of video meetings.
-/

namespace SyncEngine
namespace Ical

/-!
## The events of a resource

One pass over the logical lines finds each `VEVENT` with the lines directly inside it, where a property
it lacks goes, and the end of the calendar.
-/

structure Vevent where
  start : Nat
  finish : Nat
  own : List Nat
  anchor : Nat
deriving DecidableEq, Repr

namespace Vevent

/-- The logical lines of the component, its `BEGIN` and `END` among them. -/
def groups (vevent : Vevent) : List Nat :=
  List.range' vevent.start (vevent.finish + 1 - vevent.start)

def property (vevent : Vevent) (doc : Document) (name : Text) : Option Nat :=
  vevent.own.find? fun group => eqIgnoreCase (propertyName (doc.logical group)) name

def dateTime (windowsToIana : Text → Option Text) (vevent : Vevent) (doc : Document) (name : Text) :
    Option (Except IcalError CalendarDateTime) :=
  match vevent.property doc name with
  | none => none
  | some group =>
    match contentLines (doc.logical group) with
    | [] => none
    | line :: _ => some (parseCalendarDateTime windowsToIana line)

def isRecurring (vevent : Vevent) (doc : Document) : Bool :=
  (vevent.property doc "RRULE".toList).isSome || (vevent.property doc "RDATE".toList).isSome

def isOverride (vevent : Vevent) (doc : Document) : Bool :=
  (vevent.property doc "RECURRENCE-ID".toList).isSome

end Vevent

structure Resource where
  vevents : List Vevent
  endVcalendar : Option Nat
deriving DecidableEq, Repr

namespace Resource

def master (resource : Resource) (doc : Document) : Except IcalError Vevent :=
  match resource.vevents.find? fun vevent => !vevent.isOverride doc with
  | some vevent => .ok vevent
  | none => .error .noMaster

def overrideFor (windowsToIana : Text → Option Text) (resource : Resource) (doc : Document)
    (recurrenceId : CalendarDateTime) : Option Vevent :=
  resource.vevents.find? fun vevent =>
    match vevent.dateTime windowsToIana doc "RECURRENCE-ID".toList with
    | some (.ok existing) => existing = recurrenceId
    | _ => false

def overrides (resource : Resource) (doc : Document) : List Vevent :=
  resource.vevents.filter fun vevent => vevent.isOverride doc

def splicePoint (resource : Resource) : Except IcalError Nat :=
  match resource.endVcalendar with
  | some index => .ok index
  | none => .error .noEndVcalendar

end Resource

/-! ## The scan -/

structure Scan where
  /-- The open components, innermost first. -/
  stack : List Text
  vevents : List Vevent
  endVcalendar : Option Nat
  current : Option Vevent
deriving DecidableEq, Repr

namespace Scan

def start : Scan := ⟨[], [], none, none⟩

def onBegin (s : Scan) (index : Nat) (component : Text) : Scan :=
  let current :=
    match s.current with
    | none => if component = "VEVENT".toList then some ⟨index, index, [], index⟩ else none
    -- the first component inside the event is where a property it lacks goes
    | some vevent =>
      some (if vevent.anchor = vevent.start then { vevent with anchor := index } else vevent)
  { s with current := current, stack := component :: s.stack }

def onEnd (s : Scan) (index : Nat) (component : Text) : Scan :=
  let s := { s with
    stack := s.stack.tail
    endVcalendar := if component = "VCALENDAR".toList then some index else s.endVcalendar }
  match s.current with
  | none => s
  | some vevent =>
    if component = "VEVENT".toList then
      let anchor := if vevent.anchor = vevent.start then index else vevent.anchor
      { s with
        current := none
        vevents := s.vevents ++ [{ vevent with finish := index, anchor := anchor }] }
    else s

/-- A property line is the event's own where the innermost open component is a `VEVENT`. -/
def onProperty (s : Scan) (index : Nat) : Scan :=
  match s.current with
  | none => s
  | some vevent =>
    if s.stack.head? = some "VEVENT".toList then
      { s with current := some { vevent with own := vevent.own ++ [index] } }
    else s

def step (doc : Document) (s : Scan) (index : Nat) : Scan :=
  let logical := doc.logical index
  let name := upper (propertyName logical)
  if name = "BEGIN".toList then s.onBegin index (componentName logical)
  else if name = "END".toList then s.onEnd index (componentName logical)
  else s.onProperty index

end Scan

def scan (doc : Document) : Except IcalError Resource :=
  let s := (List.range doc.len).foldl (Scan.step doc) Scan.start
  if s.vevents = [] then .error .noVevent else .ok ⟨s.vevents, s.endVcalendar⟩

inductive TextEdit
  | set (text : Text)
  | clear
deriving DecidableEq, Repr

inductive RecurrenceBound
  | unbounded
  | count
  | until_
deriving DecidableEq, Repr

inductive UntilForm
  | floating
  | date
  | utc (instant : UtcDateTime)
deriving DecidableEq

/-- A rule, with its end as an instant where the caller has resolved one. -/
structure DraftRecurrence (ρ : Type) where
  rule : ρ
  until_ : Option UtcDateTime

inductive RecurrenceEdit (ρ : Type)
  | set (recurrence : DraftRecurrence ρ)
  | clear

inductive InviteeRole
  | required
  | optional
deriving DecidableEq, Repr

structure Invitee where
  address : Text
  name : Option Text
  role : InviteeRole
deriving DecidableEq, Repr

structure InviteePatch where
  upserts : List Invitee
  removals : List Text
deriving DecidableEq, Repr

def InviteePatch.isEmpty (patch : InviteePatch) : Bool := patch.upserts.isEmpty && patch.removals.isEmpty

structure EventPatch (ρ κ : Type) where
  stamp : UtcDateTime
  summary : Option Text
  description : Option TextEdit
  location : Option TextEdit
  start : Option CalendarDateTime
  finish : Option CalendarDateTime
  recurrence : Option (RecurrenceEdit ρ)
  invitees : Option InviteePatch
  conference : Option κ

/-- Whether attendees have to be told: of a time, a rule, a place, the roster or a meeting. -/
def EventPatch.isSignificant {ρ κ : Type} (patch : EventPatch ρ κ) : Bool :=
  patch.start.isSome || patch.finish.isSome || patch.location.isSome || patch.recurrence.isSome ||
    patch.invitees.any (fun edit => !edit.isEmpty) || patch.conference.isSome

/-- What the planner takes from elsewhere. -/
structure Outside (ρ κ β : Type) where
  windowsToIana : Text → Option Text
  bound : ρ → RecurrenceBound
  formatRrule : ρ → UntilForm → Except IcalError Text
  /-- The stored event as the reader projects it. -/
  project : Text → Except IcalError β
  /-- The notes and the place an event ends with when its meeting is edited. -/
  meetingText : β → EventPatch ρ κ → Except IcalError (Option TextEdit × Option TextEdit)
  /-- Whether the value of a meeting property names the meeting an edit takes off. -/
  removes : β → κ → Option (Text → Bool)
  /-- Whether the value of a meeting property names the meeting an edit puts on, and its lines. -/
  adds : κ → Except IcalError (Option ((Text → Bool) × List Text))

variable {ρ κ β : Type}

/-! ## Lines -/

/-- A new property of the event, before its first component. -/
def insert (doc : Document) (vevent : Vevent) (edits : Edits) (line : Text) : Edits :=
  edits.spliceBefore vevent.anchor (doc.fold vevent.anchor line)

def setOrInsert (doc : Document) (vevent : Vevent) (edits : Edits) (name value : Text) : Edits :=
  let line := name ++ ':' :: value
  match vevent.property doc name with
  | some group => edits.replace group line
  | none => insert doc vevent edits line

def setText (doc : Document) (vevent : Vevent) (edits : Edits) (name : Text) (value : TextEdit) :
    Edits :=
  match vevent.property doc name, value with
  | some group, .set text =>
    let head := ((splitOnceUnquoted (doc.logical group) ':').map Prod.fst).getD name
    edits.replace group (head ++ ':' :: escapeText text)
  | some group, .clear => edits.remove group
  | none, .set text => insert doc vevent edits (name ++ ':' :: escapeText text)
  | none, .clear => edits

def setEnd (doc : Document) (vevent : Vevent) (edits : Edits) (finish : CalendarDateTime) : Edits :=
  let line := dateTimeLine "DTEND".toList finish
  match (vevent.property doc "DTEND".toList).or (vevent.property doc "DURATION".toList) with
  | some group => edits.replace group line
  | none => insert doc vevent edits line

def setStart (doc : Document) (vevent : Vevent) (edits : Edits) (start : CalendarDateTime) : Edits :=
  match vevent.property doc "DTSTART".toList with
  | some group => edits.replace group (dateTimeLine "DTSTART".toList start)
  | none => edits

/-- A 32-bit number: decimal digits, after a sign perhaps. -/
def parseU32 (text : Text) : Option Nat :=
  let digits := match text with
    | '+' :: rest => rest
    | _ => text
  if digits = [] || !isDigits digits then none
  else if number digits < 2 ^ 32 then some (number digits)
  else none

def bumpSequence (doc : Document) (vevent : Vevent) (edits : Edits) : Edits :=
  let current := ((vevent.property doc "SEQUENCE".toList).bind fun group =>
    (splitOnceUnquoted (doc.logical group) ':').bind fun (_, value) =>
      parseU32 (trimChars value)).getD 0
  setOrInsert doc vevent edits "SEQUENCE".toList (toString (min (current + 1) (2 ^ 32 - 1))).toList

def revise (doc : Document) (vevent : Vevent) (edits : Edits) (stamp : UtcDateTime)
    (significant : Bool) : Edits :=
  let edits := setOrInsert doc vevent edits "DTSTAMP".toList (formatUtc stamp)
  let edits :=
    match vevent.property doc "LAST-MODIFIED".toList with
    | some group => edits.replace group ("LAST-MODIFIED:".toList ++ formatUtc stamp)
    | none => edits
  if significant then bumpSequence doc vevent edits else edits

/-! ## Invitees -/

def normalizeAddress (address : Text) : Text :=
  let lowered := lower (trimChars address)
  if "mailto:".toList.isPrefixOf lowered then lowered.drop 7 else lowered

def addressesMatch (a b : Text) : Bool := normalizeAddress a = normalizeAddress b

def attendeeAddress (line : Text) : Option Text :=
  (splitOnceUnquoted line ':').map fun (_, value) =>
    let value := trimChars value
    if "mailto:".toList.isPrefixOf value || "MAILTO:".toList.isPrefixOf value then value.drop 7
    else value

def isControl (c : Char) : Bool := c.toNat < 32 || (127 ≤ c.toNat && c.toNat < 160)

def escapeParameterChar (c : Char) : Text :=
  if c = '^' then ['^', '^']
  else if c = '\n' then ['^', 'n']
  else if c = '"' then ['^', '\'']
  else if isControl c then []
  else [c]

def escapeParameter (value : Text) : Text :=
  let escaped := value.flatMap escapeParameterChar
  if ':' ∈ escaped || ';' ∈ escaped || ',' ∈ escaped then '"' :: escaped ++ ['"'] else escaped

def InviteeRole.value : InviteeRole → Text
  | .required => "REQ-PARTICIPANT".toList
  | .optional => "OPT-PARTICIPANT".toList

def attendeeLine (invitee : Invitee) : Text :=
  "ATTENDEE".toList ++ (invitee.name.map fun name => ";CN=".toList ++ escapeParameter name).getD [] ++
    ";CUTYPE=INDIVIDUAL;ROLE=".toList ++ invitee.role.value ++
    ";PARTSTAT=NEEDS-ACTION;RSVP=TRUE".toList ++ ":mailto:".toList ++ invitee.address

/-- The line of an attendee with another role, and with the name where the edit gives one. -/
def updateAttendeeLine (line : Text) (invitee : Invitee) : Text :=
  let head := ((splitOnceUnquoted line ':').map Prod.fst).getD "ATTENDEE".toList
  let kept := ((splitUnquoted head ';').drop 1).filter fun parameter =>
    let name := ((splitOnce parameter '=').map Prod.fst).getD parameter
    !(eqIgnoreCase name "ROLE".toList ||
      (invitee.name.isSome && eqIgnoreCase name "CN".toList))
  let parameters := kept ++ (invitee.name.map fun name => "CN=".toList ++ escapeParameter name).toList ++
    ["ROLE=".toList ++ invitee.role.value]
  "ATTENDEE".toList ++ parameters.flatMap (fun parameter => ';' :: parameter) ++ ":mailto:".toList ++
    invitee.address

def isAttendee (doc : Document) (address : Text) (group : Nat) : Bool :=
  eqIgnoreCase (propertyName (doc.logical group)) "ATTENDEE".toList &&
    (attendeeAddress (doc.logical group)).any fun value => addressesMatch value address

def organiser (doc : Document) (vevent : Vevent) : Option Text :=
  (vevent.property doc "ORGANIZER".toList).bind fun group => attendeeAddress (doc.logical group)

def removeInvitee (doc : Document) (vevent : Vevent) (edits : Edits) (address : Text) :
    Except IcalError Edits :=
  if (organiser doc vevent).any fun value => addressesMatch value address then
    .error .organiserRemoved
  else .ok ((vevent.own.filter (isAttendee doc address)).foldl Edits.remove edits)

def upsertInvitee (doc : Document) (vevent : Vevent) (edits : Edits) (invitee : Invitee) :
    Except IcalError Edits :=
  if (organiser doc vevent).any fun value => addressesMatch value invitee.address then
    .error .organiserEdited
  else
    match vevent.own.find? (isAttendee doc invitee.address) with
    | some group => .ok (edits.replace group (updateAttendeeLine (doc.logical group) invitee))
    | none => .ok (insert doc vevent edits (attendeeLine invitee))

def setInvitees (doc : Document) (vevent : Vevent) (edits : Edits) (patch : InviteePatch) :
    Except IcalError Edits := do
  let edits ← patch.removals.foldlM (removeInvitee doc vevent) edits
  patch.upserts.foldlM (upsertInvitee doc vevent) edits

/-! ## Meetings -/

def meetingProperties : List Text :=
  ["CONFERENCE".toList, "X-GOOGLE-CONFERENCE".toList, "X-MICROSOFT-SKYPETEAMSMEETINGURL".toList]

def meetingLines (doc : Document) (vevent : Vevent) (names : Text → Bool) : List Nat :=
  vevent.own.filter fun group =>
    meetingProperties.any (eqIgnoreCase (propertyName (doc.logical group))) &&
      ((splitOnceUnquoted (doc.logical group) ':').any fun (_, value) => names value)

structure ConferenceWrite where
  description : Option TextEdit
  location : Option TextEdit
  remove : List Nat
  insert : List Text

def planConference (o : Outside ρ κ β) (doc : Document) (vevent : Vevent) (base : β)
    (patch : EventPatch ρ κ) (edit : κ) : Except IcalError ConferenceWrite := do
  let (description, location) ← o.meetingText base patch
  let removed := ((o.removes base edit).map (meetingLines doc vevent)).getD []
  match ← o.adds edit with
  | none => return ⟨description, location, removed, []⟩
  | some (names, lines) => return ⟨description, location, removed ++ meetingLines doc vevent names, lines⟩

/-! ## The plan -/

def ensureSameForm (current new : CalendarDateTime) (name : Text) : Except IcalError Unit :=
  if current.hasSameForm new then .ok () else .error (.formChange name)

def startOf (o : Outside ρ κ β) (doc : Document) (vevent : Vevent) :
    Except IcalError CalendarDateTime :=
  match vevent.dateTime o.windowsToIana doc "DTSTART".toList with
  | some start => start
  | none => .error .noDtstart

def checkTimes (o : Outside ρ κ β) (doc : Document) (vevent : Vevent) (patch : EventPatch ρ κ) :
    Except IcalError Unit := do
  let current ← startOf o doc vevent
  match patch.start with
  | some start => ensureSameForm current start "DTSTART".toList
  | none => pure ()
  let start := patch.start.getD current
  let finish ←
    match patch.finish, vevent.dateTime o.windowsToIana doc "DTEND".toList with
    | some finish, _ => pure (some finish)
    | none, some finish => finish.map some
    | none, none => pure none
  match finish with
  | none => pure ()
  | some finish =>
    ensureSameForm start finish "DTEND".toList
    if start.hasDurationUntil finish then pure () else throw .endBeforeStart

/-- Applies an optional part of a patch. -/
def onSome {α : Type} (value : Option α) (f : Edits → α → Edits) (edits : Edits) : Edits :=
  match value with
  | none => edits
  | some value => f edits value

/-- What a meeting edit writes.  An occurrence has no projection, and none of its own. -/
def conferenceOf (o : Outside ρ κ β) (doc : Document) (vevent : Vevent) (base : Option β)
    (patch : EventPatch ρ κ) : Except IcalError (Option ConferenceWrite) :=
  match base, patch.conference with
  | some base, some edit => (planConference o doc vevent base patch edit).map some
  | _, _ => .ok none

/-- The edits of the times, the texts and the meeting. -/
def planLines (doc : Document) (vevent : Vevent) (patch : EventPatch ρ κ)
    (conference : Option ConferenceWrite) (edits : Edits) : Edits :=
  let edits := onSome patch.start (setStart doc vevent) edits
  let edits := onSome patch.finish (setEnd doc vevent) edits
  let edits := onSome patch.summary
    (fun edits text => setText doc vevent edits "SUMMARY".toList (.set text)) edits
  let description := (conference.bind ConferenceWrite.description).or patch.description
  let edits := onSome description (fun edits => setText doc vevent edits "DESCRIPTION".toList) edits
  let location := (conference.bind ConferenceWrite.location).or patch.location
  let edits := onSome location (fun edits => setText doc vevent edits "LOCATION".toList) edits
  onSome conference
    (fun edits write => write.insert.foldl (insert doc vevent) (write.remove.foldl Edits.remove edits))
    edits

def planInvitees (doc : Document) (vevent : Vevent) (invitees : Option InviteePatch) (edits : Edits) :
    Except IcalError Edits :=
  match invitees with
  | some invitees => setInvitees doc vevent edits invitees
  | none => .ok edits

def plan (o : Outside ρ κ β) (doc : Document) (vevent : Vevent) (patch : EventPatch ρ κ)
    (base : Option β) (edits : Edits) : Except IcalError Edits := do
  checkTimes o doc vevent patch
  let conference ← conferenceOf o doc vevent base patch
  let edits ← planInvitees doc vevent patch.invitees (planLines doc vevent patch conference edits)
  return revise doc vevent edits patch.stamp patch.isSignificant

/-! ## Recurrence -/

def rruleValue (o : Outside ρ κ β) (recurrence : DraftRecurrence ρ) (start : CalendarDateTime) :
    Except IcalError Text :=
  match start, o.bound recurrence.rule with
  | .date _, .until_ => o.formatRrule recurrence.rule .date
  | .zoned _ _, .until_ =>
    match recurrence.until_ with
    | some instant => o.formatRrule recurrence.rule (.utc instant)
    | none => .error .untilNeedsInstant
  | _, _ => o.formatRrule recurrence.rule .floating

def isNamed (doc : Document) (names : List Text) (group : Nat) : Bool :=
  names.any (eqIgnoreCase (propertyName (doc.logical group)))

def removeNamed (doc : Document) (vevent : Vevent) (names : List Text) (edits : Edits) : Edits :=
  (vevent.own.filter (isNamed doc names)).foldl Edits.remove edits

def dropSeriesRules (doc : Document) (master : Vevent) (edits : Edits) : Edits :=
  removeNamed doc master ["RRULE".toList, "RDATE".toList, "EXDATE".toList] edits

def removeComponent (edits : Edits) (vevent : Vevent) : Edits := vevent.groups.foldl Edits.remove edits

/-- A cleared rule takes the overrides with it; a rule set replaces the rule alone. -/
def setRecurrence (o : Outside ρ κ β) (doc : Document) (master : Vevent) (resource : Resource)
    (patch : EventPatch ρ κ) (edits : Edits) : Except IcalError Edits :=
  match patch.recurrence with
  | none => .ok edits
  | some edit => do
    let start ← startOf o doc master
    match edit with
    | .set recurrence =>
      let line := "RRULE:".toList ++ (← rruleValue o recurrence start)
      match master.property doc "RRULE".toList with
      | some group => return edits.replace group line
      | none => return insert doc master edits line
    | .clear =>
      let edits := removeNamed doc master ["EXRULE".toList] (dropSeriesRules doc master edits)
      return (resource.overrides doc).foldl removeComponent edits

/-- Removes one occurrence: an `EXDATE` names it, and an override of it goes. -/
def exclude (o : Outside ρ κ β) (doc : Document) (master : Vevent) (resource : Resource)
    (occurrence : CalendarDateTime) (stamp : UtcDateTime) (edits : Edits) : Except IcalError Edits := do
  if master.isRecurring doc then
    let start ← startOf o doc master
    ensureSameForm start occurrence "EXDATE".toList
    let edits := insert doc master edits (dateTimeLine "EXDATE".toList occurrence)
    let edits := onSome (resource.overrideFor o.windowsToIana doc occurrence) removeComponent edits
    return revise doc master edits stamp true
  else throw .excludeFromSingle

/-! ## Patching a resource -/

inductive PatchTarget
  | series
  | instance_ (occurrence : CalendarDateTime)
deriving DecidableEq, Repr

/-- A new override for an occurrence: the master's own text without the rules of the series, named by
the start it had, and patched. -/
def splitOverride (o : Outside ρ κ β) (doc : Document) (master : Vevent)
    (recurrenceId : CalendarDateTime) (patch : EventPatch ρ κ) : Except IcalError Text := do
  if !master.isRecurring doc then throw .overrideOfSingle
  else if patch.start.isNone || patch.finish.isNone then throw .splitNeedsTimes
  else
    let start ← startOf o doc master
    ensureSameForm start recurrenceId "RECURRENCE-ID".toList
    let edits := dropSeriesRules doc master Edits.empty
    match master.property doc "DTSTART".toList with
    | none => throw .noDtstart
    | some anchor =>
      let edits := edits.spliceBefore anchor
        (doc.fold anchor (dateTimeLine "RECURRENCE-ID".toList recurrenceId))
      let edits ← plan o doc master patch none edits
      return doc.renderRange master.start (master.finish + 1) edits

/-- The projection a meeting edit is resolved against. -/
def baseOf (o : Outside ρ κ β) (text : Text) (patch : EventPatch ρ κ) : Except IcalError (Option β) :=
  match patch.conference with
  | some _ => (o.project text).map some
  | none => .ok none

def patchEdits (o : Outside ρ κ β) (text : Text) (doc : Document) (resource : Resource)
    (target : PatchTarget) (patch : EventPatch ρ κ) : Except IcalError Edits :=
  match target with
  | .series => do
    let master ← resource.master doc
    let base ← baseOf o text patch
    let edits ← plan o doc master patch base Edits.empty
    setRecurrence o doc master resource patch edits
  | .instance_ recurrenceId => do
    if patch.recurrence.isSome then throw .recurrenceOnOccurrence
    else if patch.invitees.isSome then throw .inviteesOnOccurrence
    else if patch.conference.isSome then throw .conferenceOnOccurrence
    else
      match resource.overrideFor o.windowsToIana doc recurrenceId with
      | some existing => plan o doc existing patch none Edits.empty
      | none =>
        let master ← resource.master doc
        let block ← splitOverride o doc master recurrenceId patch
        let index ← resource.splicePoint
        return Edits.empty.spliceBefore index block

def patchEventIcal (o : Outside ρ κ β) (text : Text) (target : PatchTarget)
    (patch : EventPatch ρ κ) : Except IcalError Text := do
  let doc := Document.parse text
  let resource ← scan doc
  let edits ← patchEdits o text doc resource target patch
  return doc.render edits

def excludeOccurrenceIcal (o : Outside ρ κ β) (text : Text) (occurrence : CalendarDateTime)
    (stamp : UtcDateTime) : Except IcalError Text := do
  let doc := Document.parse text
  let resource ← scan doc
  let master ← resource.master doc
  let edits ← exclude o doc master resource occurrence stamp Edits.empty
  return doc.render edits

end Ical
end SyncEngine
