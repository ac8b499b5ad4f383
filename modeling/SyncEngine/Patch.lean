import SyncEngine.Library.Json
import SyncEngine.Recurrence.Expand

/-!
# Patches

A patch gives values to paths of an object, and no path of it leads through another.  What an occurrence of a series
changes of itself is such a patch.
-/

namespace SyncEngine

open Recurrence (LocalDateTime CalendarDateTime TimeZoneId Time)

inductive PatchError
  | emptyPath
  | prefixOverlap (shorter longer : String)
deriving DecidableEq

def isPointerPrefix (shorter longer : String) : Bool := (shorter ++ "/").toList.isPrefixOf longer.toList

structure PatchObject where
  entries : Keyed String Json
  paths : "" ∉ entries.keys
  apart : ∀ p ∈ entries.keys, ∀ q ∈ entries.keys, isPointerPrefix p q = false

namespace PatchObject

/-- A later value of a path takes the place of an earlier one. -/
def collect (patches : List (String × Json)) : Keyed String Json :=
  patches.foldl (fun entries patch => entries.put patch.1 patch.2) Keyed.empty

/-- A path and one that goes on from it, the first such pair in order. -/
def overlap (keys : List String) : Option (String × String) :=
  let keys := keys.insertionSort (· ≤ ·)
  keys.findSome? fun p => (keys.find? (isPointerPrefix p)).map (p, ·)

theorem apart_of_overlap {keys : List String} (h : overlap keys = none) :
    ∀ p ∈ keys, ∀ q ∈ keys, isPointerPrefix p q = false := by
  intro p hp q hq
  have hsorted := List.findSome?_eq_none_iff.mp h p ((List.mem_insertionSort _).mpr hp)
  have hfind := List.find?_eq_none.mp (Option.map_eq_none_iff.mp hsorted) q ((List.mem_insertionSort _).mpr hq)
  exact Bool.eq_false_iff.mpr hfind

def new (patches : List (String × Json)) : Except PatchError PatchObject :=
  let entries := collect patches
  if hpaths : "" ∈ entries.keys then .error .emptyPath
  else
    match hoverlap : overlap entries.keys with
    | some (shorter, longer) => .error (.prefixOverlap shorter longer)
    | none => .ok ⟨entries, hpaths, apart_of_overlap hoverlap⟩

def empty : PatchObject := ⟨Keyed.empty, List.not_mem_nil, fun _ h => absurd h List.not_mem_nil⟩

def get (patch : PatchObject) (path : String) : Option Json := patch.entries.get? path

end PatchObject

/-- What is done to an occurrence of a series. -/
inductive RecurrenceOverride
  | excluded
  | patch (patch : PatchObject)

/-! ## Built from a whole occurrence -/

/-- The wall clock, a day's midnight for a day. -/
def localOf : CalendarDateTime → LocalDateTime
  | .date d => ⟨d, .midnight⟩
  | .floating wall => wall
  | .zoned wall _ => wall

def zoneName : TimeZoneId → String
  | .iana name => name
  | .custom id => id

def zoneOf : CalendarDateTime → Option TimeZoneId
  | .zoned _ zone => some zone
  | _ => none

/-- The fields a patch is built of, as they are set. -/
abbrev OverrideBuilder : Type := List (String × Json)

namespace OverrideBuilder

def start (builder : OverrideBuilder) (start : CalendarDateTime) : OverrideBuilder :=
  builder ++ [("start", .str (String.ofList (Clock.formatWallClock (localOf start))))] ++
    ((zoneOf start).map fun zone => ("timeZone", Json.str (zoneName zone))).toList

def duration (builder : OverrideBuilder) (duration : Duration) : OverrideBuilder :=
  builder ++ [("duration", .str (String.ofList (Clock.formatDuration duration)))]

def title (builder : OverrideBuilder) (title : String) : OverrideBuilder := builder ++ [("title", .str title)]

def description (builder : OverrideBuilder) (description : String) : OverrideBuilder :=
  builder ++ [("description", .str description)]

def locationNamed (builder : OverrideBuilder) (name : String) : OverrideBuilder :=
  builder ++ [("locations", .obj [("loc", .obj [("@type", .str "Location"), ("name", .str name)])])]

def build (builder : OverrideBuilder) : Except PatchError RecurrenceOverride :=
  (PatchObject.new builder).map .patch

end OverrideBuilder

/-! ## From a start to an end -/

open Recurrence (nanosPerDay)

/-- A length of time that is not negative. -/
def spanToDuration (nanos : Int) : Except Clock.TimeError Duration :=
  if nanos < 0 then .error .outOfRange
  else .ok ⟨(nanos / nanosPerDay).toNat, (nanos % nanosPerDay / 1000000000).toNat, (nanos % 1000000000).toNat, by omega⟩

/-- The time between two days, or between two wall clocks whatever their zones. -/
def durationUntil : CalendarDateTime → CalendarDateTime → Except Clock.TimeError Duration
  | .date start, .date finish => spanToDuration ((finish.number - start.number) * nanosPerDay)
  | .date _, _ => .error .outOfRange
  | _, .date _ => .error .outOfRange
  | start, finish => spanToDuration ((localOf finish).nanos - (localOf start).nanos)

end SyncEngine
