import Mathlib
import SyncEngine.Ical.Content
import SyncEngine.Library.Fallible
import SyncEngine.Rrule.Parts

/-!
# Reading a resource

The events of a resource that share the first one's `UID` are one event: the series, with the others folded into its
overrides.  An override goes by the wall clock of its `RECURRENCE-ID`, whatever its zone.  What cannot be read of a
rule, an exclusion or an override is left out.
-/

namespace SyncEngine
namespace Ical

/-!
## Components of a resource

The reader's tree: `BEGIN` opens a component, `END` closes the innermost one whatever it names, and every other line
is a property of the innermost one.  What no component is open for is left out, and what is open at the end is closed.
-/

inductive Component
  | mk (name : Text) (properties : List ContentLine) (children : List Component)

namespace Component

def name : Component → Text
  | mk name _ _ => name

def properties : Component → List ContentLine
  | mk _ properties _ => properties

def children : Component → List Component
  | mk _ _ children => children

def property (c : Component) (name : Text) : Option ContentLine :=
  c.properties.find? fun line => eqIgnoreCase line.name name

def value (c : Component) (name : Text) : Option Text := (c.property name).map ContentLine.value

def allProperties (c : Component) (name : Text) : List ContentLine :=
  c.properties.filter fun line => eqIgnoreCase line.name name

def childrenNamed (c : Component) (name : Text) : List Component :=
  c.children.filter fun child => eqIgnoreCase child.name name

def withProperty (c : Component) (line : ContentLine) : Component :=
  mk c.name (c.properties ++ [line]) c.children

def withChild (c child : Component) : Component := mk c.name c.properties (c.children ++ [child])

end Component

/-! ## The parse -/

/-- The open components, innermost first, and those that are closed. -/
structure Parse where
  stack : List Component
  roots : List Component

namespace Parse

def start : Parse := ⟨[], []⟩

def closeTop (s : Parse) : Parse :=
  match s.stack with
  | [] => s
  | [done] => ⟨[], s.roots ++ [done]⟩
  | done :: parent :: rest => ⟨parent.withChild done :: rest, s.roots⟩

def addProperty (s : Parse) (line : ContentLine) : Parse :=
  match s.stack with
  | [] => s
  | top :: rest => { s with stack := top.withProperty line :: rest }

def step (s : Parse) (line : ContentLine) : Parse :=
  if line.name = "BEGIN".toList then { s with stack := .mk (upper line.value) [] [] :: s.stack }
  else if line.name = "END".toList then s.closeTop
  else s.addProperty line

def closeAll (s : Parse) : Parse := s.stack.foldl (fun s _ => s.closeTop) s

end Parse

def components (lines : List ContentLine) : List Component := (lines.foldl Parse.step Parse.start).closeAll.roots

def parseComponents (text : Text) : List Component := components (contentLines text)

/-- Every `VEVENT` at the top, and in a component at the top. -/
def collectVevents (roots : List Component) : List Component :=
  roots.flatMap fun root =>
    (if root.name = "VEVENT".toList then [root] else []) ++ root.childrenNamed "VEVENT".toList

/-! ## Properties that do not matter -/

section Alike

variable {keep : ContentLine → Bool}

/-- The same name, and the same properties among those that matter. -/
structure Alike (keep : ContentLine → Bool) (a b : Component) : Prop where
  name : a.name = b.name
  properties : a.properties.filter keep = b.properties.filter keep

/-- Alike, and with children that are. -/
structure AlikeInside (keep : ContentLine → Bool) (a b : Component) : Prop extends Alike keep a b where
  children : List.Forall₂ (Alike keep) a.children b.children

/-- Two parses that differ in properties that do not matter. -/
structure ParseAlike (keep : ContentLine → Bool) (s t : Parse) : Prop where
  stack : List.Forall₂ (AlikeInside keep) s.stack t.stack
  roots : List.Forall₂ (AlikeInside keep) s.roots t.roots

theorem AlikeInside.withChild {a' b' : Component} (h : AlikeInside keep a b) (h' : AlikeInside keep a' b') :
    AlikeInside keep (a.withChild a') (b.withChild b') where
  name := h.name
  properties := h.properties
  children := List.rel_append h.children (.cons h'.toAlike .nil)

theorem AlikeInside.withProperty (h : AlikeInside keep a b) (line : ContentLine) :
    AlikeInside keep (a.withProperty line) (b.withProperty line) where
  name := h.name
  properties := by
    show (a.properties ++ [line]).filter keep = (b.properties ++ [line]).filter keep
    rw [List.filter_append, List.filter_append, h.properties]
  children := h.children

variable {line : ContentLine}

theorem AlikeInside.withHidden (h : AlikeInside keep a b)
    (hline : keep line = false) : AlikeInside keep (a.withProperty line) b where
  name := h.name
  properties := by
    show (a.properties ++ [line]).filter keep = b.properties.filter keep
    have hnone : [line].filter keep = [] := List.filter_eq_nil_iff.mpr (by simpa using hline)
    rw [List.filter_append, hnone, List.append_nil, h.properties]
  children := h.children

variable {s t : Parse}

theorem ParseAlike.closeTop (h : ParseAlike keep s t) : ParseAlike keep s.closeTop t.closeTop := by
  obtain ⟨stack, roots⟩ := s
  obtain ⟨stack', roots'⟩ := t
  obtain ⟨hstack, hroots⟩ := h
  simp only at hstack hroots
  cases hstack with
  | nil => exact ⟨.nil, hroots⟩
  | cons hdone hrest =>
    cases hrest with
    | nil => exact ⟨.nil, List.rel_append hroots (.cons hdone .nil)⟩
    | cons hparent hrest => exact ⟨.cons (hparent.withChild hdone) hrest, hroots⟩

theorem ParseAlike.step (h : ParseAlike keep s t) (line : ContentLine) : ParseAlike keep (s.step line) (t.step line) := by
  unfold Parse.step
  split
  · exact ⟨.cons ⟨⟨rfl, rfl⟩, .nil⟩ h.stack, h.roots⟩
  · split
    · exact h.closeTop
    · obtain ⟨stack, roots⟩ := s
      obtain ⟨stack', roots'⟩ := t
      obtain ⟨hstack, hroots⟩ := h
      simp only at hstack hroots
      cases hstack with
      | nil => exact ⟨.nil, hroots⟩
      | cons htop hrest => exact ⟨.cons (htop.withProperty line) hrest, hroots⟩

theorem ParseAlike.hidden (h : ParseAlike keep s t) (hline : keep line = false)
    (hbegin : line.name ≠ "BEGIN".toList) (hend : line.name ≠ "END".toList) : ParseAlike keep (s.step line) t := by
  unfold Parse.step
  rw [if_neg hbegin, if_neg hend]
  obtain ⟨stack, roots⟩ := s
  obtain ⟨stack', roots'⟩ := t
  obtain ⟨hstack, hroots⟩ := h
  simp only at hstack hroots
  cases hstack with
  | nil => exact ⟨.nil, hroots⟩
  | cons htop hrest => exact ⟨.cons (htop.withHidden hline) hrest, hroots⟩

/-- A component is opened and closed by lines that matter. -/
def Structural (keep : ContentLine → Bool) : Prop :=
  ∀ line : ContentLine, keep line = false → line.name ≠ "BEGIN".toList ∧ line.name ≠ "END".toList

theorem foldl_step_filter (hkeep : Structural keep) (lines : List ContentLine) (h : ParseAlike keep s t) :
    ParseAlike keep (lines.foldl Parse.step s) ((lines.filter keep).foldl Parse.step t) := by
  induction lines generalizing s t with
  | nil => exact h
  | cons line lines ih =>
    cases hline : keep line with
    | true =>
      rw [List.filter_cons_of_pos hline]
      exact ih (h.step line)
    | false =>
      rw [List.filter_cons_of_neg (by simp [hline])]
      exact ih (h.hidden hline (hkeep line hline).1 (hkeep line hline).2)

theorem ParseAlike.closeAll (h : ParseAlike keep s t) : ParseAlike keep s.closeAll t.closeAll := by
  have hmany : ∀ {l l' : List Component} {s t : Parse}, List.Forall₂ (AlikeInside keep) l l' → ParseAlike keep s t →
      ParseAlike keep (l.foldl (fun s _ => s.closeTop) s) (l'.foldl (fun s _ => s.closeTop) t) := by
    intro l l' s t hl
    induction hl generalizing s t with
    | nil => exact fun h => h
    | cons _ _ ih => exact fun h => ih h.closeTop
  exact hmany h.stack h

theorem ParseAlike.start : ParseAlike keep Parse.start Parse.start := ⟨.nil, .nil⟩

theorem components_alike (hkeep : Structural keep) {lines lines' : List ContentLine}
    (h : lines.filter keep = lines'.filter keep) :
    ∃ filtered, List.Forall₂ (AlikeInside keep) (components lines) filtered ∧
      List.Forall₂ (AlikeInside keep) (components lines') filtered := by
  refine ⟨components (lines.filter keep), (foldl_step_filter hkeep lines .start).closeAll.roots, ?_⟩
  rw [h]
  exact (foldl_step_filter hkeep lines' .start).closeAll.roots

theorem filter_named_alike {l l' : List Component} (h : List.Forall₂ (Alike keep) l l') :
    List.Forall₂ (Alike keep) (l.filter fun c => eqIgnoreCase c.name name)
      (l'.filter fun c => eqIgnoreCase c.name name) := by
  induction h with
  | nil => exact .nil
  | cons hc _ ih =>
    rw [List.filter_cons, List.filter_cons, hc.name]
    split
    · exact .cons hc ih
    · exact ih

theorem collectVevents_alike {roots roots' : List Component} (h : List.Forall₂ (AlikeInside keep) roots roots') :
    List.Forall₂ (Alike keep) (collectVevents roots) (collectVevents roots') := by
  induction h with
  | nil => exact .nil
  | cons hroot _ ih =>
    unfold collectVevents at ih ⊢
    rw [List.flatMap_cons, List.flatMap_cons]
    refine List.rel_append (List.rel_append ?_ ?_) ih
    · rw [hroot.name]
      split
      · exact .cons hroot.toAlike .nil
      · exact .nil
    · exact filter_named_alike hroot.children

variable {a b : Component} {name : Text}

theorem Alike.allProperties (h : Alike keep a b) (hname : ∀ line : ContentLine, eqIgnoreCase line.name name = true →
    keep line = true) : a.allProperties name = b.allProperties name := by
  have hall : ∀ c : Component, c.allProperties name =
      (c.properties.filter keep).filter fun line => eqIgnoreCase line.name name := by
    intro c
    unfold Component.allProperties
    rw [List.filter_filter]
    refine List.filter_congr fun line _ => ?_
    cases hline : eqIgnoreCase line.name name with
    | false => rfl
    | true => rw [hname line hline]; rfl
  rw [hall, hall, h.properties]

theorem Alike.property (h : Alike keep a b) (hname : ∀ line : ContentLine, eqIgnoreCase line.name name = true →
    keep line = true) : a.property name = b.property name := by
  have hfirst : ∀ c : Component, c.property name = (c.allProperties name).head? := by
    intro c
    unfold Component.property Component.allProperties
    rw [List.head?_filter]
  rw [hfirst, hfirst, h.allProperties hname]

end Alike

open Fallible (bind_eq_ok)

/-! ## Values -/

def Date.number (d : Date) : Int := Civil.dayNumber d.year d.month d.day

/-- The seconds from the start of the year 0 on, as the wall clock shows them. -/
def LocalDateTime.seconds (t : LocalDateTime) : Int :=
  t.date.number * 86400 + ((t.hour * 60 + t.minute) * 60 + t.second : Nat)

def spanToDuration (seconds : Int) : Except IcalError Duration :=
  if seconds < 0 then .error (.other "out of range".toList)
  else .ok ⟨(seconds / 86400).toNat, (seconds % 86400).toNat, 0, Duration.subsecond_zero⟩

def durationUntil : CalendarDateTime → CalendarDateTime → Except IcalError Duration
  | .date start, .date finish => spanToDuration ((finish.number - start.number) * 86400)
  | start, finish =>
    match start.clock, finish.clock with
    | some start, some finish => spanToDuration (finish.seconds - start.seconds)
    | _, _ => .error (.other "out of range".toList)

def parseDuration (value : Text) : Except IcalError Duration :=
  match (Clock.parseDuration (trimChars value)).run with
  | some (.ok duration) => .ok duration
  | _ => .error (.other "bad DURATION".toList)

/-- The wall clock of UTC. -/
def parseUtc (value : Text) : Except IcalError LocalDateTime :=
  let value := trimChars value
  if value.getLast? = some 'Z' || value.getLast? = some 'z' then parseLocal value.dropLast
  else .error (.other "timestamp not UTC".toList)

def unescapeText : Text → Text
  | '\\' :: 'n' :: rest => '\n' :: unescapeText rest
  | '\\' :: 'N' :: rest => '\n' :: unescapeText rest
  | '\\' :: c :: rest => c :: unescapeText rest
  | c :: rest => c :: unescapeText rest
  | [] => []

/-- The values of a list, each with the parameters of the line.  One that cannot be read is skipped. -/
def parseDateTimeList (windowsToIana : Text → Option Text) (line : ContentLine) : List CalendarDateTime :=
  (line.value.splitOn ',').filterMap fun entry =>
    (parseCalendarDateTime windowsToIana { line with value := entry }).toOption

/-! ## Overrides -/

/-- What an occurrence changes of itself. -/
structure OverridePatch where
  start : Option LocalDateTime
  timeZone : Option Text
  duration : Option Duration
  title : Option Text
  description : Option Text
  location : Option Text
  cancelled : Bool
deriving DecidableEq

inductive RecurrenceOverride
  | excluded
  | patch (patch : OverridePatch)
deriving DecidableEq

/-- The rules of a series, and its overrides by the wall clock of the occurrence. -/
structure EventRecurrence where
  rules : List Recurrence.RecurrenceRule
  overrides : Keyed LocalDateTime RecurrenceOverride

def EventRecurrence.none : EventRecurrence := ⟨[], Keyed.empty⟩

/-- A projected event, as far as its times and its recurrence go. -/
structure Event where
  uid : Text
  start : CalendarDateTime
  duration : Duration
  recurrenceId : Option CalendarDateTime
  recurrence : Option EventRecurrence
  created : Option LocalDateTime
  updated : Option LocalDateTime

/-- A day goes by the time of day the series starts at. -/
def overrideKey (value seriesStart : CalendarDateTime) : LocalDateTime :=
  match value with
  | .floating at_ => at_
  | .zoned at_ _ => at_
  | .date date =>
    match seriesStart.clock with
    | some start => ⟨date, start.hour, start.minute, start.second⟩
    | none => ⟨date, 0, 0, 0⟩

/-- A day moves to its midnight. -/
def CalendarDateTime.wallClock : CalendarDateTime → LocalDateTime
  | .date day => ⟨day, 0, 0, 0⟩
  | .floating at_ => at_
  | .zoned at_ _ => at_

def CalendarDateTime.zone : CalendarDateTime → Option TimeZoneId
  | .zoned _ zone => some zone
  | _ => none

section Reading

variable (windowsToIana : Text → Option Text)

def timeOf (vevent : Component) (name : Text) : Except IcalError (Option CalendarDateTime) :=
  match vevent.property name with
  | some line => (parseCalendarDateTime windowsToIana line).map some
  | none => .ok none

def recurrenceIdOf (vevent : Component) : Except IcalError (Option CalendarDateTime) :=
  timeOf windowsToIana vevent "RECURRENCE-ID".toList

def overrideDuration (vevent : Component) (start : CalendarDateTime) : Except IcalError (Option Duration) := do
  match ← timeOf windowsToIana vevent "DTEND".toList with
  | some finish => (durationUntil start finish).map some
  | none =>
    match vevent.value "DURATION".toList with
    | some duration => (parseDuration duration).map some
    | none => return none

def isCancelled (vevent : Component) : Bool :=
  (vevent.value "STATUS".toList).any fun status => eqIgnoreCase status "CANCELLED".toList

def overrideTimes (vevent : Component) : Except IcalError (Option CalendarDateTime × Option Duration) := do
  match ← timeOf windowsToIana vevent "DTSTART".toList with
  | some start =>
    let duration ← overrideDuration windowsToIana vevent start
    return (some start, duration)
  | none => return (none, none)

def overridePatch (vevent : Component) : Except IcalError OverridePatch := do
  let (start, duration) ← overrideTimes windowsToIana vevent
  return {
    start := start.map CalendarDateTime.wallClock
    timeZone := (start.bind CalendarDateTime.zone).map TimeZoneId.name
    duration
    title := (vevent.value "SUMMARY".toList).map unescapeText
    description := (vevent.value "DESCRIPTION".toList).map unescapeText
    location := (vevent.value "LOCATION".toList).map unescapeText
    cancelled := isCancelled vevent }

def parseRecurrence (vevent : Component) (seriesStart : CalendarDateTime) : Option EventRecurrence :=
  let rules := (vevent.allProperties "RRULE".toList).filterMap fun line => (Rrule.parseRrule line.value).toOption
  let excluded := (vevent.allProperties "EXDATE".toList).flatMap (parseDateTimeList windowsToIana)
  let overrides := excluded.foldl (fun overrides value => overrides.put (overrideKey value seriesStart) .excluded)
    Keyed.empty
  if rules.isEmpty && overrides.rows.isEmpty then none else some ⟨rules, overrides⟩

def Event.withOverride (event : Event) (key : LocalDateTime) (patch : OverridePatch) : Event :=
  let recurrence := event.recurrence.getD .none
  { event with recurrence := some { recurrence with overrides := recurrence.overrides.put key (.patch patch) } }

def foldOverride (master : Event) (vevent : Component) : Except IcalError Event := do
  match ← recurrenceIdOf windowsToIana vevent with
  | none => throw (.other "override VEVENT missing RECURRENCE-ID".toList)
  | some recurrenceId =>
    let patch ← overridePatch windowsToIana vevent
    return master.withOverride (overrideKey recurrenceId master.start) patch

/-! ## Events -/

def veventUid (vevent : Component) : Except IcalError Text :=
  match (vevent.value "UID".toList).map trimChars with
  | none => .error (.other "VEVENT missing UID".toList)
  | some uid =>
    if uid = [] then .error (.other "VEVENT missing UID".toList)
    else if 1024 < (uid.map Char.utf8Size).sum then .error (.other "bad UID".toList)
    else .ok uid

def parseStart (vevent : Component) : Except IcalError CalendarDateTime := do
  match ← timeOf windowsToIana vevent "DTSTART".toList with
  | some start => return start
  | none => throw .noDtstart

def eventDuration (vevent : Component) (start : CalendarDateTime) : Except IcalError Duration := do
  match ← timeOf windowsToIana vevent "DTEND".toList with
  | some finish => durationUntil start finish
  | none =>
    match vevent.value "DURATION".toList with
    | some duration => parseDuration duration
    | none => return if start.clock.isNone then ⟨1, 0, 0, Duration.subsecond_zero⟩ else .zero

def optUtc (vevent : Component) (name : Text) : Except IcalError (Option LocalDateTime) :=
  match vevent.value name with
  | some value => (parseUtc value).map some
  | none => .ok none

def eventFromVevent (vevent : Component) : Except IcalError Event := do
  let uid ← veventUid vevent
  let start ← parseStart windowsToIana vevent
  let duration ← eventDuration windowsToIana vevent start
  let recurrenceId ← recurrenceIdOf windowsToIana vevent
  -- an override has no rules
  let recurrence := if recurrenceId.isNone then parseRecurrence windowsToIana vevent start else none
  let created ← optUtc vevent "CREATED".toList
  let updated ← optUtc vevent "LAST-MODIFIED".toList
  return ⟨uid, start, duration, recurrenceId, recurrence, created, updated⟩

/-! ## Resources -/

def isMaster (vevent : Component) : Bool := (vevent.property "RECURRENCE-ID".toList).isNone

def hasUid (uid : Text) (vevent : Component) : Bool :=
  match veventUid vevent with
  | .ok own => own = uid
  | .error _ => false

/-- The events with the first one's `UID`, and the place of the series among them. -/
def resourceComponents (roots : List Component) : Except IcalError (List Component × Option Nat) :=
  match collectVevents roots with
  | [] => .error .noVevent
  | first :: rest => do
    let uid ← veventUid first
    let vevents := (first :: rest).filter (hasUid uid)
    return (vevents, vevents.findIdx? isMaster)

/-- Folds the events but the one at `representative`, from `index` on.  One that cannot be read is skipped. -/
def foldVevents (representative : Nat) : Nat → List Component → Event → Event
  | _, [], event => event
  | index, vevent :: rest, event =>
    if index = representative then foldVevents representative (index + 1) rest event
    else
      match foldOverride windowsToIana event vevent with
      | .ok event => foldVevents representative (index + 1) rest event
      | .error _ => foldVevents representative (index + 1) rest event

def foldOverrides (event : Event) (vevents : List Component) (master : Option Nat) : Event :=
  match master with
  | some representative => foldVevents windowsToIana representative 0 vevents event
  | none => event

def parseCalendarObject (text : Text) : Except IcalError Event := do
  let (vevents, master) ← resourceComponents (parseComponents text)
  match vevents[master.getD 0]? with
  | none => throw .noVevent
  | some vevent =>
    let event ← eventFromVevent windowsToIana vevent
    return foldOverrides windowsToIana event vevents master

end Reading

end Ical
end SyncEngine
