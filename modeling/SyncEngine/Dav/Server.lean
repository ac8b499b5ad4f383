import SyncEngine.Dav.Sync
import SyncEngine.Scope.Objects

/-!
# A DAV server and the store, as the passes meet them

The server keeps a journal of everything that was ever put into the collection.  A sync token stands for how far the
journal was told with it, for each resource.  `Serves` is what one request can be answered and what it leaves; any
request may also fail.  Everything else happens between two requests.
-/

namespace SyncEngine
namespace Dav

open Journal (value valueAt QuietFrom)
open Scope (Store ScopeRow)

structure Resource where
  data : String
  getetag : Option String
  scheduleTag : Option String
deriving DecidableEq

def Resource.props (r : Resource) : Props :=
  { Props.none with data := some r.data, getetag := r.getetag, scheduleTag := r.scheduleTag }

/-- As a server sends it that leaves bodies out. -/
def Resource.bodiless (r : Resource) : Props := { r.props with data := none }

/-- What is fixed about a server: the hrefs it spells its members with, the tags the collection has after
each change, and which of the two ways of syncing it offers.  Different members have different paths, and
no two states share a tag. -/
structure Server where
  collection : String
  member : String → Bool
  tagOf : Nat → CollectionTag
  ctagOf : Nat → String
  doesSync : Bool
  offersCtag : Bool
  named : ∀ h, member h = true → h.isEmpty = false
  apart : ∀ h, member h = true → samePath h collection = false
  distinct : ∀ h h', member h = true → member h' = true → samePath h h' = true → h = h'
  tags : ∀ m n, tagOf m = tagOf n → m = n
  ctags : ∀ m n, ctagOf m = ctagOf n → m = n
  either : doesSync = true ∨ offersCtag = true

abbrev Log := Journal String Resource

/-- Everything the passes over one collection share.  `holder` and `listed` are told by nobody: the pass
the scope's lease was last granted to, and the state each pass has a tag of. -/
structure World (ε : Type) where
  log : Log
  issued : String → Option (String → Nat)
  store : Store ε
  holder : Nat
  listed : Nat → Option Nat

/-! ## What an answer says -/

/-- The hrefs an answer is about. -/
def MultiStatus.names (ms : MultiStatus) : List String := ms.responses.flatMap (·.hrefs)

namespace Server

variable (sv : Server)

/-- A response that is true when the journal is `log`: resources that are gone, a member as it is, or the
collection itself. -/
inductive Tells (log : Log) (r : DavResponse) : Prop
  | removed : r.isRemoved = true → r.hrefs ≠ [] →
      (∀ h ∈ r.hrefs, sv.member h = true ∧ value log h = none) → Tells log r
  | member (h : String) (res : Resource) : r.isRemoved = false → r.hrefs = [h] →
      sv.member h = true → value log h = some res →
      (r.props = res.props ∨ r.props = res.bodiless) → Tells log r
  | own (h : String) : r.isRemoved = false → r.hrefs = [h] → samePath h sv.collection = true →
      Tells log r

/-- An answer names every resource in one response. -/
structure Truthful (log : Log) (ms : MultiStatus) : Prop where
  tells : ∀ r ∈ ms.responses, sv.Tells log r
  once : (ms.responses.map fun r => pathKey r.href).Nodup

/-- What was not told before and is not told here was not written in between, or came and went. -/
def Complete (log : Log) (known : String → Nat) (ms : MultiStatus) : Prop :=
  ∀ h, sv.member h = true → h ∉ ms.names →
    QuietFrom log (known h) h ∨ (valueAt log (known h) h = none ∧ value log h = none)

/-- A multiget's answer has every member with its body. -/
structure Bodies (log : Log) (hrefs : List String) (ms : MultiStatus) : Prop where
  truthful : sv.Truthful log ms
  whole : ∀ r ∈ ms.responses, ∀ h, r.isRemoved = false → r.hrefs = [h] → sv.member h = true →
    ∃ res, value log h = some res ∧ r.props = res.props
  asked : ∀ h ∈ hrefs, sv.member h = true → h ∈ ms.names

/-- The collection's own entry says that the answer was cut off. -/
def truncated (ms : MultiStatus) : Bool :=
  ms.responses.any fun r => samePath r.href sv.collection && r.status == some 507

end Server

/-! ## The store's part -/

namespace World

variable {ε : Type} (w : World ε) (scope : SyncScope)

def row : Option ScopeRow := w.store.syncScope.get? scope

def token : Nat := ((w.row scope).map ScopeRow.token).getD 0

def cursor : Option SyncState := (w.row scope).bind ScopeRow.cursor

def tag : Option CollectionTag := (w.row scope).bind ScopeRow.collectionTag

def held : ProviderKey → Option ε := w.store.objectPayload scope

def issue (token : String) (told : String → Nat) : World ε :=
  { w with issued := fun t => if t = token then some told else w.issued t }

/-- With the state noted that the listing gave the pass `i` a tag of. -/
def note (i : Nat) (state : Option Nat) : World ε :=
  { w with listed := fun j => if j = i then state else w.listed j }

end World

/-- What the drivers ask of the store, as the store does it at some time; a call that fails, a refused
claim among them, writes nothing. -/
inductive StoreServes {ε : Type} (i : Nat) (w : World ε) :
    (q : Drivers.Ask (fetching ε)) → q.Answer → World ε → Prop
  | window (scope : SyncScope) :
      StoreServes i w (.read (.expansionWindow scope)) (.ok (w.store.expansionWindow scope)) w
  | tag (scope : SyncScope) :
      StoreServes i w (.read (.other scope)) (.ok (w.store.collectionTag scope)) w
  | windowFailed (scope : SyncScope) (e : StoreError) :
      StoreServes i w (.read (.expansionWindow scope)) (.error e) w
  | tagFailed (scope : SyncScope) (e : StoreError) :
      StoreServes i w (.read (.other scope)) (.error e) w
  | claimFailed (account : AccountId) (scope : SyncScope) (req : LeaseRequest) (e : StoreError) :
      StoreServes i w (.claimSyncScope account scope req) (.error e) w
  | releaseFailed (lease : SyncLease) (e : StoreError) :
      StoreServes i w (.releaseSyncScope lease) (.error e) w
  | windowUnset (lease : SyncLease) (window : ExpansionWindow) (e : StoreError) : e ≠ .staleLease →
      StoreServes i w (.setExpansionWindow lease window) (.error e) w
  | applyFailed (lease : SyncLease) (batch : Drivers.ApplyBatch (fetching ε)) (e : StoreError) :
      e ≠ .staleLease → StoreServes i w (.applySyncUpdate lease batch) (.error e) w
  | granted (account : AccountId) (scope : SyncScope) (req : LeaseRequest) (now : UtcDateTime)
      (claim : SyncClaim) (st : Store ε) :
      w.store.claim account scope req now = (st, .ok claim) →
      StoreServes i w (.claimSyncScope account scope req) (.ok claim)
        { w with store := st, holder := i }
  | released (lease : SyncLease) :
      StoreServes i w (.releaseSyncScope lease) (.ok ())
        { w with store := w.store.release lease }
  | windowSet (lease : SyncLease) (window : ExpansionWindow) :
      StoreServes i w (.setExpansionWindow lease window)
        (w.store.setExpansionWindow lease window).2
        { w with store := (w.store.setExpansionWindow lease window).1 }
  | applied (lease : SyncLease) (batch : Drivers.ApplyBatch (fetching ε)) :
      StoreServes i w (.applySyncUpdate lease batch)
        ((w.store.apply lease batch.update batch.derived
          (batch.nextState.map fun cursor => (cursor, batch.collectionTag))).2.map fun counts =>
            ⟨counts.upserted, counts.tombstoned, 0⟩)
        { w with store := (w.store.apply lease batch.update batch.derived
          (batch.nextState.map fun cursor => (cursor, batch.collectionTag))).1 }

/-! ## Serving a request -/

namespace Server

variable {ε : Type} (sv : Server)

/-- How much of the journal the holder of a token was told; without one, nothing. -/
def Knows (w : World ε) (token : String) (known : String → Nat) : Prop :=
  if token.isEmpty then known = fun _ => 0 else w.issued token = some known

def told (log : Log) (known : String → Nat) (ms : MultiStatus) (h : String) : Nat :=
  if sv.truncated ms && !ms.names.contains h then known h else log.length

/-- A report answered with a token, for everything there is to tell or cut off after something new.  A
token is not empty, not spelled like a CTag cursor, and not issued again for another state. -/
structure Reports (w : World ε) (token : String) (ms : MultiStatus) (next : String)
    (known : String → Nat) : Prop where
  does : sv.doesSync = true
  knows : Knows w token known
  complete : sv.truncated ms = false → sv.Complete w.log known ms
  news : sv.truncated ms = true → ∃ h ∈ ms.names, sv.member h = true ∧ ¬QuietFrom w.log (known h) h
  spelled : next.isEmpty = false ∧ startsAsCtag next = false
  fresh : w.issued next = none ∨ w.issued next = some (sv.told w.log known ms)

/-- What one request of the pass `i` is answered in `w`, and the world it leaves. -/
inductive Serves (i : Nat) (w : World ε) : (q : Request ε) → q.Answer → World ε → Prop
  | store {q : Drivers.Ask (fetching ε)} {a : q.Answer} {w' : World ε} :
      StoreServes i w q a w' → Serves i w (.store q) a w'
  | listingFailed (e : Drivers.SyncError) : Serves i w .listing (.error e) w
  | listing (props : Props) : collectionTag props = none ∨ collectionTag props = some (sv.tagOf w.log.length) →
      Serves i w .listing (.ok props)
        (w.note i ((collectionTag props).map fun _ => w.log.length))
  | reportFailed (token : String) (e : CalDavError) : Serves i w (.report token) (.error e) w
  | reportTokenless (token : String) (ms : MultiStatus) : sv.Truthful w.log ms → ms.syncToken = none →
      Serves i w (.report token) (.ok ms) w
  | report (token : String) (ms : MultiStatus) (next : String) (known : String → Nat) :
      sv.Truthful w.log ms → ms.syncToken = some next → sv.Reports w token ms next known →
      Serves i w (.report token) (.ok ms)
        (w.issue next (sv.told w.log known ms))
  | ctagFailed (e : CalDavError) : Serves i w .ctag (.error e) w
  | ctag (ms : MultiStatus) : ms.responses.findSome? (·.props.getctag) =
      (if sv.offersCtag then some (sv.ctagOf w.log.length) else none) → Serves i w .ctag (.ok ms) w
  | membersFailed (e : CalDavError) : Serves i w .members (.error e) w
  | members (ms : MultiStatus) : sv.Truthful w.log ms → sv.Complete w.log (fun _ => 0) ms →
      Serves i w .members (.ok ms) w
  | multigetFailed (hrefs : List String) (e : CalDavError) : Serves i w (.multiget hrefs) (.error e) w
  | multiget (hrefs : List String) (ms : MultiStatus) : sv.Bodies w.log hrefs ms →
      Serves i w (.multiget hrefs) (.ok ms) w
  | arrivals (batches order : List (List String)) : order.Perm batches →
      Serves i w (.arrivals batches) order w

/-- What happens beside the passes: a member is created, changed or deleted, and a host that restarts
abandons the leases it held. -/
inductive Changes (w : World ε) : World ε → Prop
  | put (h : String) (res : Resource) : sv.member h = true →
      Changes w { w with log := w.log ++ [(h, some res)] }
  | delete (h : String) : sv.member h = true → value w.log h ≠ none →
      Changes w { w with log := w.log ++ [(h, none)] }
  | abandoned : Changes w { w with store := w.store.abandonLeases.1 }

end Server

/-- An empty collection that was never synced. -/
def World.fresh {ε : Type} : World ε := ⟨[], fun _ => none, Store.new, 0, fun _ => none⟩

end Dav
end SyncEngine
