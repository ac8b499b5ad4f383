import SyncEngine.Library.Delimited
import SyncEngine.Library.Json
import SyncEngine.Library.Lists
import SyncEngine.Library.Panicking
import SyncEngine.Library.Whitespace

/-!
# The meetings of an event

An event names a meeting in fields of its own, in its locations and in its description.  Addresses and texts are cut
by byte offsets, always where something was found, so that no cut panics.
-/

namespace SyncEngine
namespace Google

open Panicking

open Panicking (sliceTo sliceFrom find? matchIndices Gives Panics)

/-! ## Addresses -/

inductive UriScheme
  | https
  | http
  | tel
  | sip
  | sips
deriving DecidableEq

def asciiLower (s : List Char) : List Char := s.map Char.toLower

namespace UriScheme

def parse (scheme : List Char) : Option UriScheme :=
  match String.ofList (asciiLower scheme) with
  | "https" => some https
  | "http" => some http
  | "tel" => some tel
  | "sip" => some sip
  | "sips" => some sips
  | _ => none

def asStr : UriScheme → String
  | https => "https"
  | http => "http"
  | tel => "tel"
  | sip => "sip"
  | sips => "sips"

def isWeb (scheme : UriScheme) : Bool := scheme = https || scheme = http

end UriScheme

inductive ConferenceUriError
  | notAUri
  | unsupportedScheme
  | badAuthority
  | badCharacter
deriving DecidableEq

/-- An address a person can join at: a scheme in lower case, a colon, and the rest as it was written. -/
structure ConferenceUri where
  scheme : UriScheme
  rest : List Char
deriving DecidableEq

namespace ConferenceUri

def text (uri : ConferenceUri) : List Char := uri.scheme.asStr.toList ++ ':' :: uri.rest

section Cuts

variable {ε : Type}

/-- The authority and the path of a web address. -/
def webParts (uri : ConferenceUri) : Panicking ε (Option (List Char × List Char)) :=
  match (stripFront "https://".toList uri.text).orElse fun _ => stripFront "http://".toList uri.text with
  | none => pure none
  | some rest => do
    let finish := (find? (fun c => c = '?' || c = '#') rest).getD (Utf8.size rest)
    let rest ← sliceTo rest finish
    match find? (fun c => c = '/') rest with
    | some slash => do
      let authority ← sliceTo rest slash
      let path ← sliceFrom rest slash
      return some (authority, path)
    | none => return some (rest, [])

def isControl (c : Char) : Bool := c.toNat < 32 || (127 ≤ c.toNat && c.toNat < 160)

def checkWeb (uri : ConferenceUri) : Panicking ConferenceUriError ConferenceUri := do
  match ← uri.webParts with
  | none => throw .badAuthority
  | some (authority, _) => if authority = [] || '@' ∈ authority then throw .badAuthority else return uri

def parse (value : List Char) : Panicking ConferenceUriError ConferenceUri :=
  match splitAtFirst [':'] (trimChars value) with
  | none => throw .notAUri
  | some (scheme, rest) =>
    match UriScheme.parse scheme with
    | none => throw .unsupportedScheme
    | some scheme =>
      -- a number to dial loses its spaces
      let rest := if scheme = .tel then rest.filter (· ≠ ' ') else rest
      if rest.any fun c => isWhiteSpace c || isControl c || c = '\\' then throw .badCharacter
      else if rest = [] then throw .notAUri
      else if scheme.isWeb then checkWeb ⟨scheme, rest⟩
      else pure ⟨scheme, rest⟩

def trimEndMatches (p : Char → Bool) (s : List Char) : List Char := (s.reverse.dropWhile p).reverse

def rsplitColon (s : List Char) : Option (List Char × List Char) :=
  (splitAtFirst [':'] s.reverse).map fun (after, before) => (before.reverse, after.reverse)

def hostOf (authority : List Char) : List Char :=
  let host :=
    match rsplitColon authority with
    | some (host, port) => if port.all Char.isDigit then host else authority
    | none => authority
  asciiLower (trimEndMatches (· = '.') host)

def host (uri : ConferenceUri) : Panicking ε (Option (List Char)) := do
  let parts ← uri.webParts
  return parts.map fun p => hostOf p.1

def path (uri : ConferenceUri) : Panicking ε (Option (List Char)) := do
  let parts ← uri.webParts
  return parts.map Prod.snd

/-- The two digits after a percent sign in capitals. -/
def upperEscapesFrom : Nat → List Char → List Char
  | _, [] => []
  | 0, c :: s => c :: upperEscapesFrom (if c = '%' then 2 else 0) s
  | n + 1, c :: s => c.toUpper :: upperEscapesFrom n s

def upperEscapes (s : List Char) : List Char := upperEscapesFrom 0 s

def queryOf (s : List Char) : List (List Char) :=
  let query := ((splitAtFirst ['?'] (s.takeWhile (· ≠ '#'))).map Prod.snd).getD []
  (((query.splitOn '&').filter (· ≠ [])).map upperEscapes).dedup

def meetingParts (uri : ConferenceUri) : Panicking ε (Option (List Char × List Char × List (List Char))) := do
  match ← uri.host with
  | none => return none
  | some host =>
    match ← uri.path with
    | none => return none
    | some path => return some (host, upperEscapes (trimEndMatches (· = '/') path), queryOf uri.text)

def sameMeeting (uri other : ConferenceUri) : Panicking ε Bool := do
  match ← uri.meetingParts, ← other.meetingParts with
  | some (host, path, query), some (host', path', query') =>
    return host = host' && path = path' && (query ⊆ query' || query' ⊆ query)
  | none, none => return uri.text = other.text
  | _, _ => return false

def fullerThan (uri other : ConferenceUri) : Panicking ε Bool := do
  match ← uri.meetingParts, ← other.meetingParts with
  | some (host, path, query), some (host', path', query') =>
    return host = host' && path = path' && query' ⊆ query && query'.length < query.length
  | _, _ => return false

end Cuts

end ConferenceUri

/-! ## Services -/

inductive ConferenceService
  | teams
  | skypeForBusiness
  | skype
  | googleMeet
  | zoom
  | webex
  | jitsi
  | nextcloudTalk
  | whereby
  | protonMeet
  | goTo
  | other (name : String)
deriving DecidableEq

namespace ConferenceService

def under (host domain : String) : Bool :=
  host = domain || ((stripBack domain.toList host.toList).any fun before => before.getLast? = some '.')

def isLower (c : Char) : Bool := 'a' ≤ c && c ≤ 'z'

/-- Three, four and three small letters joined by hyphens. -/
def isMeetCode (segment : String) : Bool :=
  match segment.toList.splitOn '-' with
  | [a, b, c] => a.length = 3 && a.all isLower && b.length = 4 && b.all isLower && c.length = 3 && c.all isLower
  | _ => false

/-- A path that ends in `call` and a token. -/
def isTalkPath (segments : List String) : Bool :=
  match segments.reverse with
  | token :: "call" :: _ =>
    4 ≤ token.utf8ByteSize && token.utf8ByteSize ≤ 32 && token.toList.all fun c => isLower c || c.isDigit
  | _ => false

/-- The service at a host, by the shape of the path. -/
def at_ (host : String) (segments : List String) : Option ConferenceService :=
  let first := segments.head?
  let nonempty := !segments.isEmpty
  if host = "teams.microsoft.com" && (first = some "meet" || (first = some "l" && segments[1]? = some "meetup-join")) then
    some teams
  else if host = "teams.live.com" && first = some "meet" then some teams
  else if host = "meet.google.com" && first.any isMeetCode then some googleMeet
  else if (host = "meet.jit.si" || host = "8x8.vc") && nonempty then some jitsi
  else if host = "whereby.com" && nonempty then some whereby
  else if host = "meet.proton.me" && nonempty then some protonMeet
  else if host = "meet.goto.com" && nonempty then some goTo
  else if host = "global.gotomeeting.com" && first = some "join" then some goTo
  else if host = "meet.lync.com" && nonempty then some skypeForBusiness
  else if host = "join.skype.com" && nonempty then some skype
  else if under host "zoom.us" || under host "zoomgov.com" then
    if first = some "j" || first = some "my" || first = some "w" then some zoom else none
  else if ".webex.com".toList.isSuffixOf host.toList then
    if segments.any fun s => s = "meet" || s = "join" || s = "j.php" then some webex else none
  else if ".whereby.com".toList.isSuffixOf host.toList && nonempty then some whereby
  else if isTalkPath segments then some nextcloudTalk
  else none

def recognise {ε : Type} (uri : ConferenceUri) : Panicking ε (Option ConferenceService) := do
  match ← uri.host with
  | none => return none
  | some host =>
    match ← uri.path with
    | none => return none
    | some path =>
      let segments := (path.splitOn '/').filter (· ≠ [])
      return at_ (String.ofList host) (segments.map String.ofList)

end ConferenceService

/-! ## Meetings -/

inductive EntryKind
  | video
  | phone
  | sip
  | more
  | other (name : String)
deriving DecidableEq

def EntryKind.fromWire : String → EntryKind
  | "video" => video
  | "phone" => phone
  | "sip" => sip
  | "more" => more
  | name => other name

/-- The codes a way in asks for. -/
structure AccessCodes where
  pin : Option String
  accessCode : Option String
  meetingCode : Option String
  passcode : Option String
  password : Option String

/-- A way into a meeting. -/
structure EntryPoint where
  kind : EntryKind
  uri : ConferenceUri
  label : Option String
  description : Option String
  access : AccessCodes

def EntryPoint.at_ (uri : ConferenceUri) : EntryPoint where
  kind :=
    match uri.scheme with
    | .https | .http => .video
    | .tel => .phone
    | .sip | .sips => .sip
  uri
  label := none
  description := none
  access := ⟨none, none, none, none, none⟩

inductive NativeState
  | ready
  | pending
  | failed
deriving DecidableEq

inductive DetectedIn
  | vendorProperty
  | location
  | description
deriving DecidableEq

inductive ConferenceOrigin
  | native (removable : Bool) (state : NativeState)
  | attached
  | detected (place : DetectedIn)
deriving DecidableEq

structure Conference where
  key : String
  service : Option ConferenceService
  origin : ConferenceOrigin
  entryPoints : List EntryPoint
  label : Option String
  meetingId : Option String
  notes : Option String

def Conference.claimsService (conference : Conference) (service : Option ConferenceService) : Bool :=
  service.isSome && conference.service = service &&
    match conference.origin with
    | .native _ _ | .detected .vendorProperty => true
    | _ => false

/-! ## The field for it -/

def nonempty (value : Json) (key : String) : Option String := (value.optStr key).filter (· ≠ "")

section Reading

variable {ε : Type} (htmlToText : String → String)

def parsedUri (value : List Char) : Panicking ε (Option ConferenceUri) := (ConferenceUri.parse value).toOption

def entryPoint (entry : Json) : Panicking ε (Option EntryPoint) :=
  match entry.optStr "uri" with
  | none => pure none
  | some uri => do
    match ← parsedUri uri.toList with
    | none => return none
    | some uri =>
      let point := EntryPoint.at_ uri
      return some { point with
        kind := ((entry.optStr "entryPointType").map EntryKind.fromWire).getD point.kind
        label := nonempty entry "label"
        access := ⟨nonempty entry "pin", nonempty entry "accessCode", nonempty entry "meetingCode",
          nonempty entry "passcode", nonempty entry "password"⟩ }

def solutionType (data : Json) : Option String :=
  (((data.get "conferenceSolution").bind (Json.get · "key")).bind (Json.optStr · "type")).orElse fun _ =>
    ((data.get "createRequest").bind (Json.get · "conferenceSolutionKey")).bind (Json.optStr · "type")

def requestState (data : Json) : NativeState :=
  match ((data.get "createRequest").bind (Json.get · "status")).bind (Json.optStr · "statusCode") with
  | some "pending" => .pending
  | some "failure" => .failed
  | _ => .ready

def firstService : List EntryPoint → Panicking ε (Option ConferenceService)
  | [] => pure none
  | entry :: entries => do
    match ← ConferenceService.recognise entry.uri with
    | some service => return some service
    | none => firstService entries

def serviceOf (data : Json) (entries : List EntryPoint) : Panicking ε (Option ConferenceService) :=
  if solutionType data = some "hangoutsMeet" then pure (some .googleMeet) else firstService entries

def fromConferenceData (data : Json) : Panicking ε (Option Conference) := do
  let read ← (((data.get "entryPoints").bind Json.asArray).getD []).mapM entryPoint
  let entries := read.filterMap id
  -- a stable sort: what a person joins at goes first
  let entries := entries.filter (·.kind = .video) ++ entries.filter (·.kind ≠ .video)
  let state := requestState data
  let isAddOn := solutionType data = some "addOn"
  if entries.isEmpty && (state = .ready || isAddOn) then return none
  else
    let service ← serviceOf data entries
    return some {
      key := "conferenceData"
      service
      origin := if isAddOn then .attached else .native true state
      entryPoints := entries
      label := (data.get "conferenceSolution").bind (nonempty · "name")
      meetingId := nonempty data "conferenceId"
      notes := ((data.optStr "notes").map fun html => trimText (htmlToText html)).filter (· ≠ "") }

/-- The conference of the link Google made, where nothing else describes one. -/
def fromHangoutLink (value : Json) : Panicking ε (Option Conference) :=
  match value.optStr "hangoutLink" with
  | none => pure none
  | some link => do
    let uri ← parsedUri link.toList
    return uri.map fun uri => ⟨"conferenceData", some .googleMeet, .native true .ready, [.at_ uri], none, none, none⟩

def described (value : Json) : Panicking ε (Option Conference) :=
  match value.get "conferenceData" with
  | none => pure none
  | some data => fromConferenceData htmlToText data

def conferences (value : Json) : Panicking ε (List Conference) := do
  match ← described htmlToText value with
  | some conference => return [conference]
  | none =>
    let conference ← fromHangoutLink value
    return conference.toList

/-! ## Links in text -/

def endsLink (c : Char) : Bool := isWhiteSpace c || c = '<' || c = '>' || c = '"' || c = '\'' || c = '|'

def closesSentence (c : Char) : Bool := ".,;:!?)]*".toList.contains c

def replaceAmp : List Char → List Char
  | '&' :: 'a' :: 'm' :: 'p' :: ';' :: s => '&' :: replaceAmp s
  | c :: s => c :: replaceAmp s
  | [] => []

def linkAddress (link : List Char) : List Char :=
  let link := ((splitAtFirst "&nbsp;".toList link).map Prod.fst).getD link
  replaceAmp (ConferenceUri.trimEndMatches closesSentence link)

def linksAt (s : List Char) : Nat → List Nat → Panicking ε (List ConferenceUri)
  | _, [] => pure []
  | covered, start :: starts =>
    if start < covered then linksAt s covered starts
    else do
      let tail ← sliceFrom s start
      let finish := (find? endsLink tail).getD (Utf8.size tail)
      let link ← sliceTo tail finish
      let uri ← parsedUri (linkAddress link)
      let uris ← linksAt s (start + finish) starts
      return uri.toList ++ uris

def linkStarts (s : List Char) : List Nat :=
  let lower := asciiLower s
  (matchIndices "https://".toList lower ++ matchIndices "http://".toList lower).insertionSort (· ≤ ·)

def links (s : List Char) : Panicking ε (List ConferenceUri) := linksAt s 0 (linkStarts s)

/-- Those that lead to a meeting. -/
def recognised : List ConferenceUri → Panicking ε (List ConferenceUri)
  | [] => pure []
  | uri :: uris => do
    let service ← ConferenceService.recognise uri
    let rest ← recognised uris
    return if service.isSome then uri :: rest else rest

def locationLinks (name : List Char) : Panicking ε (List ConferenceUri) := do
  let whole ← parsedUri name
  match whole.filter (·.scheme.isWeb) with
  | some uri => return [uri]
  | none => do
    let found ← links name
    recognised found

/-! ## Meetings found in text -/

/-- The first of some ways in that joins the meeting at `uri`, between those before it and those after it. -/
def findEntry (uri : ConferenceUri) : List EntryPoint → Panicking ε (Option (List EntryPoint × EntryPoint × List EntryPoint))
  | [] => pure none
  | entry :: entries => do
    if ← entry.uri.sameMeeting uri then return some ([], entry, entries)
    else
      let found ← findEntry uri entries
      return found.map fun (before, found, after) => (entry :: before, found, after)

def isDetected : ConferenceOrigin → Bool
  | .detected _ => true
  | _ => false

/-- With the way in at `uri`, where that is fuller; nothing where no way in joins the same meeting. -/
def holdSameMeeting (conference : Conference) (uri : ConferenceUri) : Panicking ε (Option Conference) := do
  match ← findEntry uri conference.entryPoints with
  | none => return none
  | some (before, entry, after) =>
    let fuller ← uri.fullerThan entry.uri
    if isDetected conference.origin && fuller then
      return some { conference with
        key := if conference.key.toList = entry.uri.text then String.ofList uri.text else conference.key
        entryPoints := before ++ { entry with uri } :: after }
    else return some conference

/-- The conferences where one of them holds the meeting at `uri`, nothing where none does. -/
def holdIn (uri : ConferenceUri) (service : Option ConferenceService) :
    List Conference → Panicking ε (Option (List Conference))
  | [] => pure none
  | conference :: rest => do
    if conference.claimsService service then return some (conference :: rest)
    else
      match ← holdSameMeeting conference uri with
      | some conference => return some (conference :: rest)
      | none =>
        let held ← holdIn uri service rest
        return held.map (conference :: ·)

def addLink (conferences : List Conference) (link : ConferenceUri × DetectedIn) : Panicking ε (List Conference) := do
  let (uri, place) := link
  let service ← ConferenceService.recognise uri
  if place = .description && service.isNone then return conferences
  else
    match ← holdIn uri service conferences with
    | some conferences => return conferences
    | none =>
      return conferences ++ [⟨String.ofList uri.text, service, .detected place, [.at_ uri], none, none, none⟩]

/-- Adds the meetings that vendor properties, locations and the description name, and that are not there yet. -/
def addDetected (conferences : List Conference) (vendor : List ConferenceUri) (locations : List String)
    (description : Option String) : Panicking ε (List Conference) := do
  let located ← locations.mapM fun name => locationLinks name.toList
  let described ← description.toList.mapM fun text => links text.toList
  let all := vendor.map (·, DetectedIn.vendorProperty) ++ located.flatten.map (·, DetectedIn.location) ++
    described.flatten.map (·, DetectedIn.description)
  all.foldlM addLink conferences

end Reading

/-! ## No cut panics -/

section Cuts

variable {ε : Type} {s : List Char}

open Panicking (not_panics_bind not_panics_pure not_panics_throw)

theorem webParts_spec (uri : ConferenceUri) : ∃ parts, (uri.webParts : Panicking ε _) = pure parts := by
  unfold ConferenceUri.webParts
  split
  · exact ⟨none, rfl⟩
  · dsimp only
    rw [sliceTo_find, pure_bind]
    split
    · rename_i hfind
      rw [sliceTo_of_find hfind, pure_bind, sliceFrom_of_find hfind, pure_bind]
      exact ⟨_, rfl⟩
    · exact ⟨_, rfl⟩

variable {uri : ConferenceUri}

theorem not_panics_webParts : ¬ Panics (uri.webParts : Panicking ε _) := by
  obtain ⟨parts, h⟩ := @webParts_spec ε uri
  rw [h]
  exact not_panics_pure

theorem not_panics_checkWeb : ¬ Panics (ConferenceUri.checkWeb uri) := by
  apply not_panics_bind not_panics_webParts
  intro parts _
  cases parts with
  | none => exact not_panics_throw
  | some parts =>
    dsimp only
    split
    · exact not_panics_throw
    · exact not_panics_pure

variable {value : List Char}

theorem not_panics_parse : ¬ Panics (ConferenceUri.parse value) := by
  unfold ConferenceUri.parse
  split
  · exact not_panics_throw
  · split
    · exact not_panics_throw
    · dsimp only
      generalize (if _ = UriScheme.tel then List.filter _ _ else _) = rest
      split_ifs
      · exact not_panics_throw
      · exact not_panics_throw
      · exact not_panics_checkWeb
      · exact not_panics_pure

theorem not_panics_parsedUri : ¬ Panics (parsedUri value : Panicking ε _) :=
  fun h => not_panics_parse (panics_toOption.mp h)

theorem not_panics_host : ¬ Panics (uri.host : Panicking ε _) :=
  not_panics_bind not_panics_webParts fun _ _ => not_panics_pure

theorem not_panics_path : ¬ Panics (uri.path : Panicking ε _) :=
  not_panics_bind not_panics_webParts fun _ _ => not_panics_pure

theorem not_panics_meetingParts : ¬ Panics (uri.meetingParts : Panicking ε _) := by
  apply not_panics_bind not_panics_host
  intro host _
  cases host with
  | none => exact not_panics_pure
  | some host =>
    apply not_panics_bind not_panics_path
    intro path _
    cases path <;> exact not_panics_pure

variable {other : ConferenceUri}

theorem not_panics_sameMeeting : ¬ Panics (uri.sameMeeting other : Panicking ε _) := by
  apply not_panics_bind not_panics_meetingParts
  intro parts _
  apply not_panics_bind not_panics_meetingParts
  intro parts' _
  cases parts <;> cases parts' <;> exact not_panics_pure

theorem not_panics_fullerThan : ¬ Panics (uri.fullerThan other : Panicking ε _) := by
  apply not_panics_bind not_panics_meetingParts
  intro parts _
  apply not_panics_bind not_panics_meetingParts
  intro parts' _
  cases parts <;> cases parts' <;> exact not_panics_pure

theorem not_panics_recognise : ¬ Panics (ConferenceService.recognise uri : Panicking ε _) := by
  apply not_panics_bind not_panics_host
  intro host _
  cases host with
  | none => exact not_panics_pure
  | some host =>
    apply not_panics_bind not_panics_path
    intro path _
    cases path <;> exact not_panics_pure

theorem not_panics_entryPoint {entry : Json} : ¬ Panics (entryPoint entry : Panicking ε _) := by
  unfold entryPoint
  split
  · exact not_panics_pure
  · apply not_panics_bind not_panics_parsedUri
    intro uri _
    cases uri <;> exact not_panics_pure

variable {entries : List EntryPoint}

theorem not_panics_firstService : ¬ Panics (firstService entries : Panicking ε _) := by
  induction entries with
  | nil => exact not_panics_pure
  | cons entry entries ih =>
    apply not_panics_bind not_panics_recognise
    intro service _
    cases service with
    | none => exact ih
    | some service => exact not_panics_pure

variable {htmlToText : String → String}

theorem not_panics_fromConferenceData {data : Json} : ¬ Panics (fromConferenceData htmlToText data : Panicking ε _) := by
  apply not_panics_bind (not_panics_mapM fun _ _ => not_panics_entryPoint)
  intro read _
  dsimp only
  split
  · exact not_panics_pure
  · apply not_panics_bind
    · unfold serviceOf
      split
      · exact not_panics_pure
      · exact not_panics_firstService
    · intro service _
      exact not_panics_pure

theorem not_panics_conferences {value : Json} : ¬ Panics (conferences htmlToText value : Panicking ε _) := by
  apply not_panics_bind
  · unfold described
    split
    · exact not_panics_pure
    · exact not_panics_fromConferenceData
  · intro conference _
    cases conference with
    | some conference => exact not_panics_pure
    | none =>
      apply not_panics_bind
      · unfold fromHangoutLink
        split
        · exact not_panics_pure
        · exact not_panics_bind not_panics_parsedUri fun _ _ => not_panics_pure
      · intro conference _
        exact not_panics_pure

theorem utf8Size_toLower (c : Char) : c.toLower.utf8Size = c.utf8Size := by
  unfold Char.toLower
  split
  · rename_i h
    have hupper : 65 ≤ c.toNat ∧ c.toNat ≤ 90 := h
    have hlower : c.toLower.toNat < 128 := by
      unfold Char.toLower
      rw [dif_pos h]
      show (c.val + ('a'.val - 'A'.val)).toNat < 128
      rw [UInt32.toNat_add]
      have hval : c.val.toNat = c.toNat := rfl
      have hgap : ('a'.val - 'A'.val).toNat = 32 := by decide
      omega
    have hsize := Utf8.utf8Size_of_lt hlower
    unfold Char.toLower at hsize
    rw [dif_pos h] at hsize
    rw [hsize, Utf8.utf8Size_of_lt (by omega)]
  · rfl

theorem size_asciiLower : Utf8.size (asciiLower s) = Utf8.size s := by
  induction s with
  | nil => rfl
  | cons c s ih =>
    show Utf8.size (c.toLower :: asciiLower s) = _
    rw [Utf8.size_cons, Utf8.size_cons, ih, utf8Size_toLower]

theorem sliceFrom_of_mem_linkStarts {start : Nat} (h : start ∈ linkStarts s) :
    ∃ tail, (sliceFrom s start : Panicking ε (List Char)) = pure tail := by
  have hplace : ∃ pattern, start ∈ matchIndices pattern (asciiLower s) := by
    have hmem := (List.mem_insertionSort _).mp h
    cases List.mem_append.mp hmem with
    | inl hmem => exact ⟨_, hmem⟩
    | inr hmem => exact ⟨_, hmem⟩
  obtain ⟨pattern, hmem⟩ := hplace
  obtain ⟨before, after, hlower, hsize⟩ := mem_matchesFrom hmem
  obtain ⟨before', after', rfl, rfl, -⟩ := List.map_eq_append_iff.mp hlower
  refine ⟨after', sliceFrom_append ?_⟩
  have hbefore : Utf8.size (asciiLower before') = Utf8.size before' := size_asciiLower
  unfold asciiLower at hbefore
  omega

theorem not_panics_linksAt {covered : Nat} {starts : List Nat} (h : ∀ start ∈ starts, start ∈ linkStarts s) :
    ¬ Panics (linksAt s covered starts : Panicking ε _) := by
  induction starts generalizing covered with
  | nil => exact not_panics_pure
  | cons start starts ih =>
    have hrest := fun x hx => h x (List.mem_cons_of_mem start hx)
    unfold linksAt
    split
    · exact ih hrest
    · obtain ⟨tail, htail⟩ := @sliceFrom_of_mem_linkStarts ε s start (h start List.mem_cons_self)
      rw [htail, pure_bind]
      dsimp only
      rw [sliceTo_find, pure_bind]
      apply not_panics_bind not_panics_parsedUri
      intro uri _
      exact not_panics_bind (ih hrest) fun _ _ => not_panics_pure

theorem not_panics_links : ¬ Panics (links s : Panicking ε _) := not_panics_linksAt fun _ h => h

theorem not_panics_recognised {uris : List ConferenceUri} : ¬ Panics (recognised uris : Panicking ε _) := by
  induction uris with
  | nil => exact not_panics_pure
  | cons uri uris ih =>
    apply not_panics_bind not_panics_recognise
    intro service _
    exact not_panics_bind ih fun _ _ => not_panics_pure

theorem not_panics_locationLinks {name : List Char} : ¬ Panics (locationLinks name : Panicking ε _) := by
  apply not_panics_bind not_panics_parsedUri
  intro whole _
  split
  · exact not_panics_pure
  · exact not_panics_bind not_panics_links fun _ _ => not_panics_recognised

theorem not_panics_findEntry : ¬ Panics (findEntry uri entries : Panicking ε _) := by
  induction entries with
  | nil => exact not_panics_pure
  | cons entry entries ih =>
    apply not_panics_bind not_panics_sameMeeting
    intro same _
    cases same with
    | true => exact not_panics_pure
    | false => exact not_panics_bind ih fun _ _ => not_panics_pure

theorem not_panics_holdSameMeeting {conference : Conference} :
    ¬ Panics (holdSameMeeting conference uri : Panicking ε _) := by
  apply not_panics_bind not_panics_findEntry
  intro found _
  cases found with
  | none => exact not_panics_pure
  | some found =>
    apply not_panics_bind not_panics_fullerThan
    intro fuller _
    split <;> exact not_panics_pure

variable {conferences : List Conference}

theorem not_panics_holdIn {service : Option ConferenceService} :
    ¬ Panics (holdIn uri service conferences : Panicking ε _) := by
  induction conferences with
  | nil => exact not_panics_pure
  | cons conference rest ih =>
    unfold holdIn
    split
    · exact not_panics_pure
    · apply not_panics_bind not_panics_holdSameMeeting
      intro held _
      cases held with
      | some conference => exact not_panics_pure
      | none => exact not_panics_bind ih fun _ _ => not_panics_pure

theorem not_panics_addLink {link : ConferenceUri × DetectedIn} : ¬ Panics (addLink conferences link : Panicking ε _) := by
  apply not_panics_bind not_panics_recognise
  intro service _
  split
  · exact not_panics_pure
  · apply not_panics_bind not_panics_holdIn
    intro held _
    cases held <;> exact not_panics_pure

theorem not_panics_addDetected {vendor : List ConferenceUri} {locations : List String}
    {description : Option String} : ¬ Panics (addDetected conferences vendor locations description : Panicking ε _) := by
  apply not_panics_bind (not_panics_mapM fun _ _ => not_panics_locationLinks)
  intro located _
  apply not_panics_bind (not_panics_mapM fun _ _ => not_panics_links)
  intro described _
  exact not_panics_foldlM (fun _ _ _ => not_panics_addLink) conferences

end Cuts

end Google
end SyncEngine
