import SyncEngine.Outbox.Op
import SyncEngine.Library.Keyed

/-!
# The durable store's scopes

A row of `sync_scope` is a scope's fencing generation, the lease on it, its cursor and the window its occurrences are
expanded over.  Of the tables keyed by it the model keeps the objects and the expanded occurrences; the rows a mail or
contact pass derives are not read by anything here.  Each function is one transaction, and refuses before it writes.
-/

namespace SyncEngine

/-!
## Sync scopes

The unit of sync state, leasing and serialization, as fine as the protocol's: per data type or per folder.  A row of the
durable store is keyed by a scope's own serialisation, which names the scope, so the model keys rows by the scope.
-/

/-- A data type whose state is tracked per account.  `other` is one this build does not
know. -/
inductive JmapDataType
  | email
  | mailbox
  | thread
  | emailSubmission
  | calendar
  | calendarEvent
  | addressBook
  | contactCard
  | other (name : String)
deriving DecidableEq

inductive SyncScope
  | jmapType (account : AccountId) (dataType : JmapDataType)
  | imapMailboxList (account : AccountId)
  | imapMailbox (account : AccountId) (mailbox : String)
  | davCollectionList (account : AccountId)
  | davCollection (account : AccountId) (collection : String)
  | graphFolderList (account : AccountId)
  | graphFolder (account : AccountId) (folder : String)
  | graphCalendarList (account : AccountId)
  | graphCalendar (account : AccountId) (calendar : String)
  | graphContactFolderList (account : AccountId)
  | graphContacts (account : AccountId) (addressBook : String)
  | graphOrgContacts (account : AccountId)
  | graphDirectoryUsers (account : AccountId)
  | gmailMessages (account : AccountId)
  | gmailLabelList (account : AccountId)
  | googleCalendarList (account : AccountId)
  | googleCalendar (account : AccountId) (calendar : String)
  | googleContactSourceList (account : AccountId)
  | googleContacts (account : AccountId)
  | googleOtherContacts (account : AccountId)
  | googleDirectoryPeople (account : AccountId)
  | googleContactGroups (account : AccountId)
  | cardDavAddressBookList (account : AccountId)
  | cardDavAddressBook (account : AccountId) (addressBook : String)
deriving DecidableEq

def SyncScope.account : SyncScope → AccountId
  | .jmapType account _ | .imapMailboxList account | .imapMailbox account _
  | .davCollectionList account | .davCollection account _ | .graphFolderList account
  | .graphFolder account _ | .graphCalendarList account | .graphCalendar account _
  | .graphContactFolderList account | .graphContacts account _ | .graphOrgContacts account
  | .graphDirectoryUsers account | .gmailMessages account | .gmailLabelList account
  | .googleCalendarList account | .googleCalendar account _ | .googleContactSourceList account
  | .googleContacts account | .googleOtherContacts account | .googleDirectoryPeople account
  | .googleContactGroups account | .cardDavAddressBookList account
  | .cardDavAddressBook account _ => account

/-- The domain a scope's data belongs to, containers included.  Only a data type this build
does not know has none. -/
def SyncScope.domain : SyncScope → Option SearchDomain
  | .jmapType _ dataType =>
    match dataType with
    | .email | .mailbox | .thread | .emailSubmission => some .mail
    | .calendar | .calendarEvent => some .calendar
    | .addressBook | .contactCard => some .contacts
    | .other _ => none
  | .imapMailboxList _ | .imapMailbox _ _ | .graphFolderList _ | .graphFolder _ _
  | .gmailMessages _ | .gmailLabelList _ => some .mail
  | .davCollectionList _ | .davCollection _ _ | .graphCalendarList _ | .graphCalendar _ _
  | .googleCalendarList _ | .googleCalendar _ _ => some .calendar
  | .graphContactFolderList _ | .graphContacts _ _ | .graphOrgContacts _
  | .graphDirectoryUsers _ | .googleContactSourceList _ | .googleContacts _
  | .googleOtherContacts _ | .googleDirectoryPeople _ | .googleContactGroups _
  | .cardDavAddressBookList _ | .cardDavAddressBook _ _ => some .contacts

inductive ObjectKind
  | message
  | mailbox
  | event
  | calendar
  | contactCard
  | addressBook
deriving DecidableEq

def SyncScope.objectKind : SyncScope → Option ObjectKind
  | .jmapType _ dataType =>
    match dataType with
    | .email => some .message
    | .mailbox => some .mailbox
    | .calendarEvent => some .event
    | .calendar => some .calendar
    | .contactCard => some .contactCard
    | .addressBook => some .addressBook
    | _ => none
  | .imapMailbox _ _ | .graphFolder _ _ | .gmailMessages _ => some .message
  | .imapMailboxList _ | .graphFolderList _ | .gmailLabelList _ => some .mailbox
  | .davCollection _ _ | .graphCalendar _ _ | .googleCalendar _ _ => some .event
  | .davCollectionList _ | .graphCalendarList _ | .googleCalendarList _ => some .calendar
  | .graphContacts _ _ | .graphOrgContacts _ | .graphDirectoryUsers _ | .googleContacts _
  | .googleOtherContacts _ | .googleDirectoryPeople _ | .googleContactGroups _
  | .cardDavAddressBook _ _ => some .contactCard
  | .graphContactFolderList _ | .googleContactSourceList _ | .cardDavAddressBookList _ =>
    some .addressBook

/-- The time range a calendar is expanded over: not empty, its end left out. -/
structure Horizon where
  start : UtcDateTime
  finish : UtcDateTime
  proper : start < finish
deriving DecidableEq

/-- The horizon a scope's occurrence rows are materialized over, and the zone floating times
were resolved through. -/
structure ExpansionWindow where
  horizon : Horizon
  zone : String
deriving DecidableEq

abbrev SyncState := String
abbrev CollectionTag := String

/-- A store-issued lease over one scope.  The expiry is the one it was claimed with, however
often the store has renewed the lease since. -/
structure SyncLease where
  account : AccountId
  scope : SyncScope
  token : Nat
  owner : WorkerId
  expiry : UtcDateTime
deriving DecidableEq

structure SyncClaim where
  lease : SyncLease
  state : Option SyncState
deriving DecidableEq

/-- One expanded occurrence of an event. -/
structure OccurrenceRow where
  event : ProviderKey
  start : UtcDateTime
  finish : UtcDateTime
  recurrenceId : Option UtcDateTime
  tzdataVersion : String
deriving DecidableEq

/-- A batch of changes for one scope: a list of what changed, or everything there is. -/
inductive SyncUpdate (ω : Type)
  | delta (changed : List (ProviderKey × ω)) (removed : List ProviderKey)
  | snapshot (objects : List (ProviderKey × ω)) (present : List ProviderKey)

def SyncUpdate.changed {ω : Type} : SyncUpdate ω → List (ProviderKey × ω)
  | .delta changed _ => changed
  | .snapshot objects _ => objects

/-- The derived rows of one scope that a calendar pass writes. -/
structure DerivedWrite where
  removed : List ProviderKey
  resetOccurrences : List ProviderKey
  occurrences : List OccurrenceRow

def DerivedWrite.empty : DerivedWrite := ⟨[], [], []⟩

structure SyncApplied where
  upserted : Nat
  tombstoned : Nat
deriving DecidableEq

namespace Scope

/-- One row of `sync_scope`. -/
structure ScopeRow where
  account : AccountId
  token : Nat
  leaseExpiry : Option UtcDateTime
  cursor : Option SyncState
  collectionTag : Option CollectionTag
  window : Option ExpansionWindow
deriving DecidableEq

namespace ScopeRow

/-- A scope no row exists for, as the next claim sees it. -/
def unclaimed (account : AccountId) : ScopeRow := ⟨account, 0, none, none, none, none⟩

/-- Without its cursor, and with the pass holding it fenced off. -/
def cleared (row : ScopeRow) : ScopeRow :=
  { row with cursor := none, collectionTag := none, token := row.token + 1, leaseExpiry := none }

def abandoned (row : ScopeRow) : ScopeRow :=
  if row.leaseExpiry.isSome then { row with token := row.token + 1, leaseExpiry := none } else row

end ScopeRow

/-- What distinguishes two occurrence rows of one scope. -/
structure OccurrenceKey where
  event : ProviderKey
  start : UtcDateTime
  recurrenceId : Option UtcDateTime
deriving DecidableEq

/-- The columns an upsert of an occurrence rewrites. -/
structure OccurrenceSpan where
  finish : UtcDateTime
  tzdataVersion : String
deriving DecidableEq

structure Store (ω : Type) where
  syncScope : Keyed SyncScope ScopeRow
  object : Keyed (SyncScope × ProviderKey) ω
  eventOccurrence : Keyed (SyncScope × OccurrenceKey) OccurrenceSpan

namespace Store

variable {ω : Type}

def new : Store ω := ⟨Keyed.empty, Keyed.empty, Keyed.empty⟩

/-! ## Taking and giving back a lease -/

def claim (st : Store ω) (account : AccountId) (scope : SyncScope) (req : LeaseRequest)
    (now : UtcDateTime) : Store ω × Result SyncClaim :=
  match expiryAfter now req.ttl with
  | .error e => (st, .error e)
  | .ok expiry =>
    let row := (st.syncScope.get? scope).getD (ScopeRow.unclaimed account)
    if isLive row.leaseExpiry now then (st, .error .scopeHeld)
    else
      ({ st with
          syncScope := st.syncScope.put scope
            { row with token := row.token + 1, leaseExpiry := some expiry } },
        .ok ⟨⟨account, scope, row.token + 1, req.owner, expiry⟩, row.cursor⟩)

/-- Whether `token` is still the scope's generation. -/
def isCurrent (st : Store ω) (scope : SyncScope) (token : Nat) : Bool :=
  (st.syncScope.get? scope).any fun row => decide (row.token = token)

/-- Moves the expiry of a lease that still holds its scope. -/
def renew (st : Store ω) (lease : SyncLease) (ttl : Nat) (now : UtcDateTime) :
    Store ω × Result Unit :=
  match expiryAfter now ttl with
  | .error e => (st, .error e)
  | .ok expiry =>
    if (st.syncScope.get? lease.scope).any fun row =>
        decide (row.token = lease.token) && row.leaseExpiry.isSome then
      ({ st with
          syncScope := st.syncScope.modify lease.scope fun row =>
            { row with leaseExpiry := some expiry } }, .ok ())
    else (st, .error .staleLease)

def release (st : Store ω) (lease : SyncLease) : Store ω :=
  if st.isCurrent lease.scope lease.token then
    { st with
      syncScope := st.syncScope.modify lease.scope fun row => { row with leaseExpiry := none } }
  else st

def abandonLeases (st : Store ω) : Store ω × Nat :=
  ({ st with syncScope := st.syncScope.mapRows fun _ row => row.abandoned },
    (st.syncScope.rows.filter fun r => r.2.leaseExpiry.isSome).length)

/-! ## Writing under a lease -/

def deleteOccurrences (st : Store ω) (scope : SyncScope) (key : ProviderKey) : Store ω :=
  { st with
    eventOccurrence := st.eventOccurrence.filterRows fun k _ =>
      !(decide (k.1 = scope) && decide (k.2.event = key)) }

def upsertObject (st : Store ω) (scope : SyncScope) (key : ProviderKey) (payload : ω) : Store ω :=
  { st with object := st.object.put (scope, key) payload }

def tombstone (st : Store ω) (scope : SyncScope) (key : ProviderKey) : Store ω :=
  deleteOccurrences
    { st with object := st.object.filterRows fun k _ => decide (k ≠ (scope, key)) } scope key

def objectKeys (st : Store ω) (scope : SyncScope) : List ProviderKey :=
  (st.object.keys.filter fun k => decide (k.1 = scope)).map Prod.snd

def objectPayload (st : Store ω) (scope : SyncScope) (key : ProviderKey) : Option ω :=
  st.object.get? (scope, key)

def upsertAll (st : Store ω) (scope : SyncScope) (objects : List (ProviderKey × ω)) : Store ω :=
  objects.foldl (fun st o => st.upsertObject scope o.1 o.2) st

def tombstoneAll (st : Store ω) (scope : SyncScope) (keys : List ProviderKey) : Store ω :=
  keys.foldl (fun st key => st.tombstone scope key) st

def putOccurrence (st : Store ω) (scope : SyncScope) (occ : OccurrenceRow) : Store ω :=
  { st with
    eventOccurrence := st.eventOccurrence.put (scope, ⟨occ.event, occ.start, occ.recurrenceId⟩)
      ⟨occ.finish, occ.tzdataVersion⟩ }

/-- Clears first and writes after, so a batch that re-expands an event leaves its fresh rows. -/
def applyDerived (st : Store ω) (scope : SyncScope) (derived : DerivedWrite) : Store ω :=
  let st := derived.removed.foldl (fun st key => st.deleteOccurrences scope key) st
  let st := derived.resetOccurrences.foldl (fun st key => st.deleteOccurrences scope key) st
  derived.occurrences.foldl (fun st occ => st.putOccurrence scope occ) st

def applyUpdate (st : Store ω) (scope : SyncScope) : SyncUpdate ω → Store ω × SyncApplied
  | .delta changed removed =>
    let upserted := st.upsertAll scope changed
    (upserted.tombstoneAll scope removed,
      ⟨changed.length, (removed.foldl (fun acc key =>
        (acc.1.tombstone scope key,
          acc.2 + if (acc.1.objectPayload scope key).isSome then 1 else 0))
        (upserted, 0)).2⟩)
  | .snapshot objects present =>
    let upserted := st.upsertAll scope objects
    let absent := (upserted.objectKeys scope).filter fun key => !present.contains key
    (upserted.tombstoneAll scope absent, ⟨objects.length, absent.length⟩)

/-- The cursor an apply commits, with the tag of the collection it was read at. -/
abbrev NextState := Option (SyncState × Option CollectionTag)

def setCursor (st : Store ω) (scope : SyncScope) : NextState → Store ω
  | none => st
  | some (cursor, tag) =>
    { st with
      syncScope := st.syncScope.modify scope fun row =>
        { row with cursor := some cursor, collectionTag := tag } }

def apply (st : Store ω) (lease : SyncLease) (update : SyncUpdate ω) (derived : DerivedWrite)
    (next : NextState) : Store ω × Result SyncApplied :=
  if st.isCurrent lease.scope lease.token then
    let written := st.applyUpdate lease.scope update
    ((written.1.applyDerived lease.scope derived).setCursor lease.scope next, .ok written.2)
  else (st, .error .staleLease)

/-- Writes only derived rows, under the same gate as sync. -/
def maintenance (st : Store ω) (lease : SyncLease) (derived : DerivedWrite) :
    Store ω × Result Unit :=
  if st.isCurrent lease.scope lease.token then (st.applyDerived lease.scope derived, .ok ())
  else (st, .error .staleLease)

def setExpansionWindow (st : Store ω) (lease : SyncLease) (window : ExpansionWindow) :
    Store ω × Result Unit :=
  if st.isCurrent lease.scope lease.token then
    ({ st with
        syncScope := st.syncScope.modify lease.scope fun row =>
          { row with window := some window } }, .ok ())
  else (st, .error .staleLease)

def expansionWindow (st : Store ω) (scope : SyncScope) : Option ExpansionWindow :=
  (st.syncScope.get? scope).bind ScopeRow.window

def collectionTag (st : Store ω) (scope : SyncScope) : Option CollectionTag :=
  (st.syncScope.get? scope).bind ScopeRow.collectionTag

/-! ## Clearing, forgetting and purging -/

def clearOneCursor (st : Store ω) (scope : SyncScope) : Store ω :=
  { st with syncScope := st.syncScope.modify scope ScopeRow.cleared }

def clearSyncCursors (st : Store ω) : Store ω :=
  { st with syncScope := st.syncScope.mapRows fun _ row => ScopeRow.cleared row }

/-- Drops the contents of the scopes `p` selects. -/
def dropContents (st : Store ω) (p : SyncScope → Bool) : Store ω :=
  { st with
    object := st.object.filterRows fun k _ => !p k.1
    eventOccurrence := st.eventOccurrence.filterRows fun k _ => !p k.1 }

/-- Drops a scope's rows and clears its cursor, window and lease.  The row stays, and with it
the generation. -/
def forgetScope (st : Store ω) (lease : SyncLease) : Store ω × Result Unit :=
  if st.isCurrent lease.scope lease.token then
    let st := st.dropContents fun scope => decide (scope = lease.scope)
    ({ st with
        syncScope := st.syncScope.modify lease.scope fun row =>
          { row with cursor := none, leaseExpiry := none, window := none,
                     collectionTag := none } }, .ok ())
  else (st, .error .staleLease)

/-- Deletes the rows of the scopes `p` selects, contents first. -/
def purge (st : Store ω) (p : SyncScope → Bool) : Store ω :=
  { st.dropContents p with syncScope := st.syncScope.filterRows fun scope _ => !p scope }

/-- Whether `scope` is on record for `account`. -/
def ownedBy (st : Store ω) (account : AccountId) (scope : SyncScope) : Bool :=
  (st.syncScope.get? scope).any fun row => decide (row.account = account)

def purgeAccount (st : Store ω) (account : AccountId) : Store ω :=
  st.purge fun scope => st.ownedBy account scope

/-- Purges one domain of an account.  A scope whose domain this build cannot tell is kept. -/
def purgeDomain (st : Store ω) (account : AccountId) (domain : SearchDomain) : Store ω :=
  st.purge fun scope => st.ownedBy account scope && decide (scope.domain = some domain)

end Store

end Scope
end SyncEngine
