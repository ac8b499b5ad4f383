import SyncEngine.Library.Lists
import SyncEngine.Drivers.Scopes

/-!
# Syncing a DAV collection

The adapter's read of one collection: by its sync token, or by its CTag where the server does not do the report.  Other
clients and other passes may do anything between two of its requests.  The passes are the engine's own drivers, with
the adapter's program in the place of their one fetch.
-/

namespace SyncEngine
namespace Dav

open Drivers

/-!
## What a DAV server answers

A multistatus as the adapters read it, and what they make of one.  The two adapters differ in how a member's body is
read, so the reader is a parameter and `Props.data` is the property the adapter asks the body under.  A response-level
404 reports its hrefs removed; any other response is about a member, or about the collection, told by its path.
-/

/-- The properties a sync reads from a response's successful propstats. -/
structure Props where
  data : Option String
  getetag : Option String
  scheduleTag : Option String
  getctag : Option String
  syncToken : Option String
deriving DecidableEq

def Props.none : Props := ⟨.none, .none, .none, .none, .none⟩

structure DavResponse where
  hrefs : List String
  status : Option Nat
  props : Props
deriving DecidableEq

structure MultiStatus where
  responses : List DavResponse
  syncToken : Option String
deriving DecidableEq

namespace DavResponse

def href (response : DavResponse) : String := response.hrefs.headD ""

def isRemoved (response : DavResponse) : Bool := response.status == some 404

end DavResponse

/-! ## Hrefs -/

/-- What follows the first `://`. -/
def afterScheme : List Char → Option (List Char)
  | ':' :: '/' :: '/' :: rest => some rest
  | _ :: rest => afterScheme rest
  | [] => none

def pathOf (href : List Char) : List Char :=
  match afterScheme href with
  | some rest => if '/' ∈ rest then rest.dropWhile (· != '/') else ['/']
  | none => href

def pathKey (href : String) : List Char :=
  ((pathOf href.toList).reverse.dropWhile (· == '/')).reverse

def samePath (a b : String) : Bool := pathKey a == pathKey b

def hrefKey (href : String) : Option ProviderKey := if href.isEmpty then none else some href

/-! ## Failures -/

/-- A failed request.  `preconditions` are the local names of the elements in the body of a refusal. -/
inductive CalDavError
  | transport (decode : Bool)
  | status (code : Nat) (preconditions : List String) (concurrencyLimit : Bool)
  | xml (detail : String)
  | protocol (detail : String)
  | unsupportedAuthentication (detail : String)
deriving DecidableEq

def statusClass (code : Nat) (preconditions : List String) (concurrencyLimit : Bool) :
    FailureClass :=
  if (code == 403 || code == 409) && preconditions.contains "valid-sync-token" then .needsResync
  else if code == 401 then .authentication
  else if code == 400 && concurrencyLimit then .rateLimited
  else if code == 409 || code == 412 then .conflict
  else if code == 501 then .permanent
  else if code == 423 || (500 ≤ code && code ≤ 599) then .retryable
  else if code == 429 then .rateLimited
  else .permanent

namespace CalDavError

def failureClass : CalDavError → FailureClass
  | .transport decode => if decode then .permanent else .retryable
  | .status code preconditions concurrencyLimit => statusClass code preconditions concurrencyLimit
  | .xml _ | .protocol _ | .unsupportedAuthentication _ => .permanent

/-- Whether the answer to a report says that the server does not do it.  `first` is whether the request
carried no token. -/
def refusesSyncCollection (first : Bool) : CalDavError → Bool
  | .status code preconditions _ =>
    code == 405 || code == 501 || (first && code == 400) ||
      ((code == 403 || code == 409) && preconditions.contains "supported-report")
  | _ => false

end CalDavError

/-! ## Cursors and tags -/

/-- What a CTag cursor starts with, telling it apart from a server's sync-token. -/
def ctagMark : String := "ctag:"

def ctagCursor (ctag : String) : SyncState := ctagMark ++ ctag

def startsAsCtag (cursor : SyncState) : Bool := ctagMark.toList.isPrefixOf cursor.toList

def isCtagCursor (cursor : Option SyncState) : Bool := cursor.any startsAsCtag

/-- The marker of a collection's contents: its sync-token, or else its CTag.  An empty value is none. -/
def collectionTag (props : Props) : Option CollectionTag :=
  (props.syncToken.filter fun value => !value.isEmpty).or
    (props.getctag.filter fun value => !value.isEmpty)

/-! ## What is made of the members -/

section Update

variable {ε : Type} (reader : String → Props → Option ε) (collection : String)

namespace DavResponse

def isMember (response : DavResponse) : Bool :=
  !response.isRemoved && !samePath response.href collection

def keys (response : DavResponse) : List ProviderKey := response.hrefs.filterMap hrefKey

/-- The object in a member's response, under its href.  One without a body, with no href to be kept
under or that cannot be read is passed over. -/
def object (response : DavResponse) : Option (ProviderKey × ε) := do
  let _ ← response.props.data
  let key ← hrefKey response.href
  let object ← reader key response.props
  return (key, object)

end DavResponse

/-- A member the server listed is present whether or not it can be read. -/
def buildUpdate (multistatus : MultiStatus) (snapshot : Bool) : SyncUpdate ε :=
  let members := multistatus.responses.filter (·.isMember collection)
  let changed := members.filterMap (·.object reader)
  if snapshot then .snapshot changed (members.flatMap (·.keys))
  else .delta changed ((multistatus.responses.filter (·.isRemoved)).flatMap (·.keys))

end Update

def readEvent {ε : Type} (parse : String → String → Option ε)
    (revised : Option String → Option String → ε → ε) (href : String) (props : Props) : Option ε := do
  let data ← props.data
  let event ← parse data href
  return revised props.getetag props.scheduleTag event

def readContact {ε : Type} (parse : String → String → Option ε)
    (revised : Option String → ε → ε) (href : String) (props : Props) : Option ε := do
  let data ← props.data
  let card ← parse data href
  return revised props.getetag card

/-! ## Bodies that were left out -/

/-- How many members one multiget names. -/
def batch : Nat := 100

/-- The members a report gave without their body. -/
def MultiStatus.missing (collection : String) (report : MultiStatus) : List String :=
  (report.responses.filter fun response =>
    response.isMember collection && response.props.data.isNone).map (·.href)

/-- Rewrites the last response about the resource of `href`. -/
def fillSlot (href : String) (f : DavResponse → DavResponse) : List DavResponse → List DavResponse
  | [] => []
  | response :: rest =>
    if rest.any fun r => samePath r.href href then response :: fillSlot href f rest
    else if samePath response.href href then f response :: rest
    else response :: rest

def DavResponse.gone (response : DavResponse) : DavResponse := { response with status := some 404 }

def DavResponse.withProps (props : Props) (response : DavResponse) : DavResponse :=
  { response with props := props }

/-- Puts one response of a multiget in its place: a removal marks its members removed, and a body takes
the place of the bodiless answer, under the href the sync named it by. -/
def fillFrom (responses : List DavResponse) (found : DavResponse) : List DavResponse :=
  if found.isRemoved then
    found.hrefs.foldl (fun responses href => fillSlot href DavResponse.gone responses) responses
  else if found.props.data.isNone then responses
  else fillSlot found.href (DavResponse.withProps found.props) responses

def MultiStatus.filled (report fetched : MultiStatus) : MultiStatus :=
  { report with responses := fetched.responses.foldl fillFrom report.responses }

open Drivers (Driver Interface ScopeFetch ScopeRun ScopeSync ScopeSyncer SyncError orFail)

/-- What the drivers' calls are about in a collection of `ε`s.  The one read besides the drivers' own is
that of a scope's collection tag. -/
abbrev interface (ε : Type) : Interface where
  Payload := ε
  Read := SyncScope
  ReadAnswer _ := Result (Option CollectionTag)
  Update := SyncUpdate ε
  Derived := DerivedWrite
  Observation := Empty
  Reconciliation := Empty
  Fetched := Empty
  Chunk := Empty

/-- A fetch tells whether it recovered from a lost cursor. -/
abbrev fetching (ε : Type) : Interface := (interface ε).fetching Bool Unit

inductive Request (ε : Type)
  | store (q : Ask (fetching ε))
  | listing
  | report (token : String)
  | ctag
  | members
  | multiget (hrefs : List String)
  | arrivals (batches : List (List String))

variable {ε : Type}

/-- `arrivals` asks nobody: it is the order in which the multigets in flight come to be answered. -/
@[reducible]
def Request.Answer : Request ε → Type
  | .store q => q.Answer
  | .listing => Except SyncError Props
  | .report _ | .ctag | .members | .multiget _ => Except CalDavError MultiStatus
  | .arrivals _ => List (List String)

abbrev Talk (ε α : Type) := Dialogue (Request ε) Request.Answer α

abbrev Adapter (ε α : Type) := ExceptT CalDavError (Dialogue (Request ε) Request.Answer) α

def send (q : Request ε) : Talk ε q.Answer := Dialogue.request q

def report (token : String) : Adapter ε MultiStatus := ExceptT.mk (send (.report token))

def ctagPropfind : Adapter ε MultiStatus := ExceptT.mk (send .ctag)

def membersPropfind : Adapter ε MultiStatus := ExceptT.mk (send .members)

def multiget (hrefs : List String) : Adapter ε MultiStatus := ExceptT.mk (send (.multiget hrefs))

def arrivals (batches : List (List String)) : Adapter ε (List (List String)) :=
  liftM (send (.arrivals batches) : Talk ε (List (List String)))

/-- The answer as it is, failed or not. -/
def tried {α : Type} (x : Adapter ε α) : Adapter ε (Except CalDavError α) := liftM x.run

/-! ## The adapter -/

section Adapter

variable (reader : String → Props → Option ε) (collection tokenless : String)

def fillBatches (report : MultiStatus) : List (List String) → Adapter ε MultiStatus
  | [] => return report
  | hrefs :: rest => do
    let fetched ← multiget hrefs
    fillBatches (report.filled fetched) rest

def fillBodies (report : MultiStatus) : Adapter ε MultiStatus :=
  let missing := report.missing collection
  if missing.isEmpty then return report
  else do
    let order ← arrivals (chunks batch missing)
    fillBatches report order

inductive CtagSync
  | unchanged (next : SyncState)
  | changed (members : MultiStatus) (next : SyncState)

def ctagSync (cursor : Option SyncState) : Adapter ε CtagSync := do
  let properties ← ctagPropfind
  match properties.responses.findSome? (·.props.getctag) with
  | none => throw (.protocol "the collection offers neither sync-collection nor a CTag")
  | some ctag =>
    let next := ctagCursor ctag
    if cursor = some next then return .unchanged next
    else
      let members ← membersPropfind
      let members ← fillBodies collection members
      return .changed members next

def byCtag (cursor : Option SyncState) : Adapter ε (ScopeSync (fetching ε)) := do
  match ← ctagSync collection cursor with
  | .unchanged next => return ⟨.delta [] [], next⟩
  | .changed members next => return ⟨buildUpdate reader collection members true, next⟩

def readReport (multistatus : MultiStatus) (snapshot : Bool) : Adapter ε (ScopeSync (fetching ε)) := do
  let multistatus ← fillBodies collection multistatus
  match multistatus.syncToken with
  | none => throw (.protocol tokenless)
  | some next => return ⟨buildUpdate reader collection multistatus snapshot, next⟩

/-- The members' changes since `cursor`, and whether the cursor was lost. -/
def syncMembers (cursor : Option SyncState) : Adapter ε (ScopeSync (fetching ε) × Bool) :=
  if isCtagCursor cursor then return (← byCtag reader collection cursor, false)
  else do
    let token := cursor.getD ""
    let first := token.isEmpty
    match ← tried (report token) with
    | .ok multistatus =>
      if multistatus.syncToken.isSome then
        return (← readReport reader collection tokenless multistatus first, false)
      -- An answer without a token: the server does not do the report.
      else return (← byCtag reader collection cursor, cursor.isSome)
    | .error e =>
      if !first && e.failureClass == .needsResync then do
        let multistatus ← report ""
        return (← readReport reader collection tokenless multistatus true, true)
      else if !e.refusesSyncCollection first then throw e
      else return (← byCtag reader collection cursor, cursor.isSome)

end Adapter

/-! ## The passes -/

/-- One collection as the engine syncs it. -/
structure Synced (ε : Type) where
  account : AccountId
  scope : SyncScope
  collection : String
  reader : String → Props → Option ε
  tokenless : String
  derive : ExpansionWindow → ScopeSync (fetching ε) → DerivedWrite
  tell : CalDavError → String

/-- What happens to a collection: a pass over the calendars, the reconcile after a write, or a pass over
the contacts of an account that may have no address books. -/
inductive Pass
  | calendar (req : LeaseRequest) (seed : ExpansionWindow)
  | reconcile (req : LeaseRequest)
  | contacts (req : LeaseRequest) (advertised : Bool)

inductive Outcome
  | unchanged
  | synced (run : ScopeRun Bool Unit)

inductive PassError
  | sync (e : SyncError)
  | noExpansionWindow

namespace Synced

variable (c : Synced ε)

def syncer (derive : ScopeSync (fetching ε) → DerivedWrite) (tag : Option CollectionTag) :
    ScopeSyncer (fetching ε) where
  scope _ := c.scope
  derive := derive
  collectionTag := tag
  observations _ _ _ := .done (.ok [])

/-- Whether the tag of the listing is the one recorded at the last sync. -/
def tagStands (tag : Option CollectionTag) : Driver (fetching ε) Bool :=
  match tag with
  | none => return false
  | some _ => do
    let recorded ← orFail (ask (fetching ε) (.read (.other c.scope)))
    return decide (recorded = tag)

/-- Records the window a first sync will expand over, under a lease of its own. -/
def seedWindow (req : LeaseRequest) (window : ExpansionWindow) : Driver (fetching ε) Unit := do
  let claim ← orFail (claimSyncScope c.account c.scope req)
  let result ← answer (setExpansionWindow claim.lease window)
  orFail (releaseSyncScope claim.lease)
  orFail (return result)

def windowOrSeed (req : LeaseRequest) (seed : ExpansionWindow) : Driver (fetching ε) ExpansionWindow := do
  match ← orFail (expansionWindow c.scope) with
  | some window => return window
  | none =>
    c.seedWindow req seed
    return seed

def syncGroup (req : LeaseRequest) (seed : ExpansionWindow) (tag : Option CollectionTag) :
    Driver (fetching ε) Outcome := do
  if ← c.tagStands tag then return .unchanged
  else
    let window ← c.windowOrSeed req seed
    let run ← runScope (c.syncer (c.derive window) tag) c.account req
    return .synced run

def syncReconciled (req : LeaseRequest) (window : ExpansionWindow) : Driver (fetching ε) Outcome := do
  let run ← runScope (c.syncer (c.derive window) none) c.account req
  return .synced run

def syncContactScope (req : LeaseRequest) : Driver (fetching ε) Outcome := do
  let run ← runScope (c.syncer (fun _ => .empty) none) c.account req
  return .synced run

/-- What the drivers are told of the adapter's answer. -/
def fetched : Except CalDavError (ScopeSync (fetching ε) × Bool) →
    Except ProviderError (ScopeFetch (interface ε) Bool Unit)
  | .ok (sync, recovered) => .ok (.proceed ⟨sync.update, sync.nextCursor⟩ recovered)
  | .error e => .error ⟨e.failureClass, c.tell e, false⟩

/-- An account without address books halts the pass. -/
def fetch (advertised : Bool) (cursor : Option SyncState) :
    Talk ε (Except ProviderError (ScopeFetch (interface ε) Bool Unit)) :=
  if advertised then do
    return c.fetched (← (syncMembers c.reader c.collection c.tokenless cursor).run)
  else return .ok (.halt ())

/-- What stands behind the drivers' calls: the store answers its own, and a fetch is the adapter's. -/
def behind (advertised : Bool) : (q : Ask (fetching ε)) → Talk ε q.Answer
  | .fetch _ cursor => c.fetch advertised cursor
  | .read r => send (.store (.read r))
  | .claimSyncScope account scope req => send (.store (.claimSyncScope account scope req))
  | .renewSyncScopeLease lease ttl => send (.store (.renewSyncScopeLease lease ttl))
  | .releaseSyncScope lease => send (.store (.releaseSyncScope lease))
  | .applySyncUpdate lease batch => send (.store (.applySyncUpdate lease batch))
  | .applyMaintenance lease derived => send (.store (.applyMaintenance lease derived))
  | .setExpansionWindow lease window => send (.store (.setExpansionWindow lease window))
  | .forgetScope lease => send (.store (.forgetScope lease))
  | .streamEmail account cursor since fetchBatch chunkSize =>
    send (.store (.streamEmail account cursor since fetchBatch chunkSize))

def drive {α : Type} (advertised : Bool) (x : Driver (fetching ε) α) : Talk ε (Except SyncError α) :=
  Dialogue.expand (c.behind advertised) x.run

def pass : Pass → Talk ε (Except PassError Outcome)
  | .calendar req seed => do
    match ← send .listing with
    | .error e => return .error (.sync e)
    | .ok props =>
      return (← c.drive true (c.syncGroup req seed (collectionTag props))).mapError .sync
  | .reconcile req => do
    match ← send (.store (.read (.expansionWindow c.scope))) with
    | .error e => return .error (.sync (.store e))
    | .ok none => return .error .noExpansionWindow
    | .ok (some window) => return (← c.drive true (c.syncReconciled req window)).mapError .sync
  | .contacts req advertised => do
    return (← c.drive advertised (c.syncContactScope req)).mapError .sync

end Synced

/-- A calendar, read by the calendar adapter. -/
def events (account : AccountId) (collection : String) (parse : String → String → Option ε)
    (revised : Option String → Option String → ε → ε)
    (derive : ExpansionWindow → ScopeSync (fetching ε) → DerivedWrite) (tell : CalDavError → String) :
    Synced ε where
  account := account
  scope := .davCollection account collection
  collection := collection
  reader := readEvent parse revised
  tokenless := "sync-collection response had no sync-token"
  derive := derive
  tell := tell

/-- An address book, read by the address-book adapter. -/
def contacts (account : AccountId) (collection : String) (parse : String → String → Option ε)
    (revised : Option String → ε → ε) (tell : CalDavError → String) : Synced ε where
  account := account
  scope := .cardDavAddressBook account collection
  collection := collection
  reader := readContact parse revised
  tokenless := "CardDAV sync response had no sync-token"
  derive _ _ := .empty
  tell := tell

end Dav
end SyncEngine
