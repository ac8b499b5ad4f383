import SyncEngine.Mail.Stream

/-!
# The drivers that hold a scope

Each claims a scope, works under the lease and gives it back: `runScope` applies one fetch,
`streamEmail` applies a stream chunk by chunk, `expandCalendarHorizon` rewrites the occurrences of every
calendar and `forgetScopes` drops scopes whole.  A write that is refused as stale is never made again:
the two sync drivers claim anew, a bounded number of times.
-/

namespace SyncEngine
namespace Drivers

/-!
## What the sync drivers ask

A driver claims a scope, asks a provider for what changed in it and has the store write that under the lease.  Its
programs are dialogues with both: any call may be answered in any way, so what holds of all their runs holds whatever
the store, the provider and other workers do.
-/

inductive SyncError
  | provider (e : ProviderError)
  | store (e : StoreError)
  | decode (message : String)
deriving DecidableEq

structure SyncApplied where
  upserted : Nat
  tombstoned : Nat
  reconciled : Nat
deriving DecidableEq

/-- The types a driver's calls are about.  `Read` are the reads that the parts of a pass make of the
store besides those named in `StoreRead`. -/
structure Interface where
  Payload : Type
  Read : Type
  ReadAnswer : Read → Type
  Update : Type
  Derived : Type
  Observation : Type
  Reconciliation : Type
  Fetched : Type
  Chunk : Type

structure ApplyBatch (I : Interface) where
  update : I.Update
  derived : I.Derived
  reconcile : List I.Reconciliation
  recipientObservations : List I.Observation
  nextState : Option SyncState
  observedFrom : Option UtcDateTime
  collectionTag : Option CollectionTag

/-- One wait on a stream: how often the lease fell due for renewal in it, and what came. -/
structure Awaited (ι : Type) where
  renewals : Nat
  item : ι

/-- A stream as far as a pass reads it, with the wait in which it ended. -/
structure Streamed (χ : Type) where
  items : List (Awaited (Except ProviderError χ))
  ending : Nat

/-- The reads of the store. -/
inductive StoreRead (I : Interface)
  | accountScopes (account : AccountId)
  | expansionWindow (scope : SyncScope)
  | loadSyncState (account : AccountId) (scope : SyncScope)
  | objectKeys (scope : SyncScope)
  | objectPayload (scope : SyncScope) (key : ProviderKey)
  | other (r : I.Read)

inductive Ask (I : Interface)
  | read (r : StoreRead I)
  | claimSyncScope (account : AccountId) (scope : SyncScope) (req : LeaseRequest)
  | renewSyncScopeLease (lease : SyncLease) (ttl : Nat)
  | releaseSyncScope (lease : SyncLease)
  | applySyncUpdate (lease : SyncLease) (batch : ApplyBatch I)
  | applyMaintenance (lease : SyncLease) (derived : I.Derived)
  | setExpansionWindow (lease : SyncLease) (window : ExpansionWindow)
  | forgetScope (lease : SyncLease)
  | fetch (account : AccountId) (cursor : Option SyncState)
  | streamEmail (account : AccountId) (cursor : Option SyncState) (since : Option Nat)
      (fetchBatch chunkSize : Nat)

variable {I : Interface}

@[reducible]
def StoreRead.Answer : StoreRead I → Type
  | .accountScopes _ => Result (List SyncScope)
  | .expansionWindow _ => Result (Option ExpansionWindow)
  | .loadSyncState _ _ => Result (Option SyncState)
  | .objectKeys _ => Result (List ProviderKey)
  | .objectPayload _ _ => Result (Option I.Payload)
  | .other r => I.ReadAnswer r

@[reducible]
def Ask.Answer : Ask I → Type
  | .read r => r.Answer
  | .claimSyncScope _ _ _ => Result SyncClaim
  | .renewSyncScopeLease _ _ => Result Unit
  | .releaseSyncScope _ => Result Unit
  | .applySyncUpdate _ _ => Result SyncApplied
  | .applyMaintenance _ _ => Result Unit
  | .setExpansionWindow _ _ => Result Unit
  | .forgetScope _ => Result Unit
  | .fetch _ _ => Except ProviderError I.Fetched
  | .streamEmail _ _ _ _ _ => Streamed I.Chunk

/-- A program that cannot fail of itself. -/
abbrev Talk (I : Interface) (α : Type) := Dialogue (Ask I) Ask.Answer α

abbrev Driver (I : Interface) (α : Type) := ExceptT SyncError (Dialogue (Ask I) Ask.Answer) α

/-- A program with the store's reads at hand and nothing else. -/
abbrev Reading (I : Interface) (α : Type) :=
  Dialogue (StoreRead I) (fun r => Ask.Answer (.read r)) (Except SyncError α)

def ask (I : Interface) (q : Ask I) : Talk I q.Answer := Dialogue.request q

def claimSyncScope (account : AccountId) (scope : SyncScope) (req : LeaseRequest) :
    Talk I (Result SyncClaim) :=
  ask I (.claimSyncScope account scope req)

def renewSyncScopeLease (lease : SyncLease) (ttl : Nat) : Talk I (Result Unit) :=
  ask I (.renewSyncScopeLease lease ttl)

def releaseSyncScope (lease : SyncLease) : Talk I (Result Unit) :=
  ask I (.releaseSyncScope lease)

def applySyncUpdate (lease : SyncLease) (batch : ApplyBatch I) : Talk I (Result SyncApplied) :=
  ask I (.applySyncUpdate lease batch)

def applyMaintenance (lease : SyncLease) (derived : I.Derived) : Talk I (Result Unit) :=
  ask I (.applyMaintenance lease derived)

def setExpansionWindow (lease : SyncLease) (window : ExpansionWindow) : Talk I (Result Unit) :=
  ask I (.setExpansionWindow lease window)

def forgetScope (lease : SyncLease) : Talk I (Result Unit) :=
  ask I (.forgetScope lease)

def accountScopes (account : AccountId) : Talk I (Result (List SyncScope)) :=
  ask I (.read (.accountScopes account))

def expansionWindow (scope : SyncScope) : Talk I (Result (Option ExpansionWindow)) :=
  ask I (.read (.expansionWindow scope))

def loadSyncState (account : AccountId) (scope : SyncScope) : Talk I (Result (Option SyncState)) :=
  ask I (.read (.loadSyncState account scope))

def objectKeys (scope : SyncScope) : Talk I (Result (List ProviderKey)) :=
  ask I (.read (.objectKeys scope))

def objectPayload (scope : SyncScope) (key : ProviderKey) : Talk I (Result (Option I.Payload)) :=
  ask I (.read (.objectPayload scope key))

def fetch (account : AccountId) (cursor : Option SyncState) :
    Talk I (Except ProviderError I.Fetched) :=
  ask I (.fetch account cursor)

def providerStream (account : AccountId) (cursor : Option SyncState) (since : Option Nat)
    (fetchBatch chunkSize : Nat) : Talk I (Streamed I.Chunk) :=
  ask I (.streamEmail account cursor since fetchBatch chunkSize)

def answer {α : Type} (call : Talk I α) : Driver I α := liftM call

def reading {α : Type} (program : Reading I α) : Talk I (Except SyncError α) :=
  Dialogue.within Ask.read program

def orFail {α : Type} (call : Talk I (Result α)) : Driver I α :=
  ExceptT.mk do return (← call).mapError .store

/-- Fails after giving the lease back; whether the store took it back does not matter. -/
def releaseAndFail {α : Type} (lease : SyncLease) (e : SyncError) : Driver I α := do
  let _ ← answer (releaseSyncScope lease)
  throw e

end Drivers

namespace Drivers

def maxStaleReclaims : Nat := 3

/-- When the pass under the lease began to read, from which the store tells which queued changes it may
have missed. -/
def readSince (lease : SyncLease) (req : LeaseRequest) : Option UtcDateTime :=
  if lease.expiry.nanos < req.ttl then none
  else some ⟨lease.expiry.nanos - req.ttl, Nat.lt_of_le_of_lt (Nat.sub_le ..) lease.expiry.inRange⟩

/-! ## One fetch -/

structure ScopeSync (I : Interface) where
  update : I.Update
  nextCursor : SyncState

inductive ScopeFetch (I : Interface) (μ η : Type)
  | proceed (sync : ScopeSync I) (extra : μ)
  | halt (reason : η)

inductive ScopeRun (μ η : Type)
  | applied (applied : SyncApplied) (extra : μ)
  | halted (reason : η)

/-- The interface of a scope whose fetch answers with an update to apply, or with a reason not to. -/
abbrev Interface.fetching (I : Interface) (μ η : Type) : Interface :=
  { I with Fetched := ScopeFetch I μ η }

structure ScopeSyncer (I : Interface) where
  scope : AccountId → SyncScope
  derive : ScopeSync I → I.Derived
  collectionTag : Option CollectionTag
  observations : AccountId → SyncScope → I.Update → Reading I (List I.Observation)

section RunScope

variable {I : Interface} {μ η : Type}
variable (syncer : ScopeSyncer (I.fetching μ η)) (account : AccountId) (req : LeaseRequest)

/-- The update under its lease.  `again` is the fresh claim of a write refused as stale, while there is
one left. -/
def ScopeSyncer.commit (claim : SyncClaim) (sync : ScopeSync I) (extra : μ)
    (again : Option (Driver (I.fetching μ η) (ScopeRun μ η))) :
    Driver (I.fetching μ η) (ScopeRun μ η) := do
  let derived := syncer.derive ⟨sync.update, sync.nextCursor⟩
  match ← answer (reading (syncer.observations account (syncer.scope account) sync.update)) with
  | .error e => releaseAndFail claim.lease e
  | .ok recipientObservations =>
    let batch : ApplyBatch (I.fetching μ η) :=
      { update := sync.update, derived, reconcile := [], recipientObservations,
        nextState := some sync.nextCursor, observedFrom := readSince claim.lease req,
        collectionTag := syncer.collectionTag }
    match ← answer (applySyncUpdate claim.lease batch), again with
    | .ok applied, _ =>
      orFail (releaseSyncScope claim.lease)
      return .applied applied extra
    | .error .staleLease, some again => again
    | .error e, _ => releaseAndFail claim.lease (.store e)

def ScopeSyncer.attempt (again : Option (Driver (I.fetching μ η) (ScopeRun μ η))) :
    Driver (I.fetching μ η) (ScopeRun μ η) := do
  let claim ← orFail (claimSyncScope account (syncer.scope account) req)
  match ← answer (fetch account claim.state) with
  | .error e => releaseAndFail claim.lease (.provider e)
  | .ok (.halt reason) =>
    orFail (releaseSyncScope claim.lease)
    return .halted reason
  | .ok (.proceed sync extra) => syncer.commit account req claim sync extra again

/-- `reclaims` is how many claims are left after a stale write. -/
def ScopeSyncer.attempts : Nat → Driver (I.fetching μ η) (ScopeRun μ η)
  | 0 => syncer.attempt account req none
  | reclaims + 1 => syncer.attempt account req (some (attempts reclaims))

def runScope : Driver (I.fetching μ η) (ScopeRun μ η) :=
  syncer.attempts account req maxStaleReclaims

end RunScope

/-! ## A stream -/

section Stream

open Mail (EmailChunk Message MailUpdate SyncWindow MailContent buildUpdate derive)

variable {I : Interface} {γ : Type}

abbrev Interface.mail (I : Interface) (γ : Type) : Interface :=
  { I with Update := MailUpdate γ, Derived := Mail.DerivedWrite γ, Chunk := EmailChunk γ }

structure StreamTuning where
  window : SyncWindow
  fetchBatch : Nat
  chunkSize : Nat

/-- Everything that is the same for every folder of a pass. -/
structure FolderPass (I : Interface) (γ : Type) where
  req : LeaseRequest
  tuning : StreamTuning
  scope : AccountId → SyncScope
  observations : AccountId → SyncScope → MailUpdate γ → Reading (I.mail γ) (List I.Observation)
  reconciliations :
    AccountId → SyncScope → MailUpdate γ → Reading (I.mail γ) (List I.Reconciliation)

/-- Where a stream is: the cursor it has left, the keys it has listed and counted, and what it has
applied. -/
structure Progress where
  left : Option SyncState
  present : List ProviderKey
  counted : List ProviderKey
  totals : SyncApplied

inductive Ended
  | finished (applied : SyncApplied)
  | fenced (left : Option SyncState) (applied : SyncApplied)

def SyncApplied.zero : SyncApplied := ⟨0, 0, 0⟩

def SyncApplied.add (totals applied : SyncApplied) : SyncApplied :=
  ⟨totals.upserted + applied.upserted, totals.tombstoned + applied.tombstoned,
    totals.reconciled + applied.reconciled⟩

def countKeys (counted : List ProviderKey) (changed : List (Message γ)) : List ProviderKey :=
  changed.foldl (fun counted m => if m.key ∈ counted then counted else m.key :: counted) counted

/-- Renews a lease as often as it fell due, whatever the store answers. -/
def keepAlive (lease : SyncLease) (ttl : Nat) : Nat → Talk (I.mail γ) Unit
  | 0 => return ()
  | renewals + 1 => do
    let _ ← renewSyncScopeLease lease ttl
    keepAlive lease ttl renewals

variable [MailContent γ]

namespace FolderPass

variable (pass : FolderPass I γ) (account : AccountId)

/-- One chunk committed: the progress after it, or why the pass ends with it. -/
def commitChunk (reclaimable : Bool) (lease : SyncLease) (s : Progress) (chunk : EmailChunk γ) :
    Driver (I.mail γ) (Progress ⊕ Ended) := do
  let scope := pass.scope account
  let counted := countKeys s.counted chunk.changed
  let repeats := chunk.changed.length - (counted.length - s.counted.length)
  let (update, present) := buildUpdate chunk pass.tuning.window s.present
  let advanceTo := chunk.advanceTo.map pass.tuning.window.stamp
  match ← answer (reading (pass.observations account scope update)) with
  | .error e => releaseAndFail lease e
  | .ok recipientObservations =>
    match ← answer (reading (pass.reconciliations account scope update)) with
    | .error e => releaseAndFail lease e
    | .ok reconcile =>
      let batch : ApplyBatch (I.mail γ) :=
        { update, derived := derive update, reconcile, recipientObservations,
          nextState := advanceTo, observedFrom := readSince lease pass.req, collectionTag := none }
      match ← answer (applySyncUpdate lease batch), reclaimable with
      | .ok applied, _ =>
        let totals := s.totals.add { applied with upserted := applied.upserted - repeats }
        if chunk.isReconcileFinal then
          orFail (releaseSyncScope lease)
          return .inr (.finished totals)
        else return .inl ⟨advanceTo.or s.left, present, counted, totals⟩
      | .error .staleLease, true => return .inr (.fenced s.left s.totals)
      | .error e, _ => releaseAndFail lease (.store e)

/-- The stream from one of its chunks on. -/
def drain (reclaimable : Bool) (lease : SyncLease) (ending : Nat) :
    List (Awaited (Except ProviderError (EmailChunk γ))) → Progress → Driver (I.mail γ) Ended
  | [], s => do
    answer (keepAlive lease pass.req.ttl ending)
    orFail (releaseSyncScope lease)
    return .finished s.totals
  | next :: rest, s => do
    answer (keepAlive lease pass.req.ttl next.renewals)
    match next.item with
    | .error e => releaseAndFail lease (.provider e)
    | .ok chunk =>
      match ← pass.commitChunk account reclaimable lease s chunk with
      | .inl s => drain reclaimable lease ending rest s
      | .inr ended => return ended

def stream (reclaimable : Bool) (claim : SyncClaim) : Driver (I.mail γ) Ended := do
  let cursor := pass.tuning.window.resume claim.state
  let streamed ← answer (providerStream account cursor (pass.tuning.window.since.map (·.days))
    pass.tuning.fetchBatch pass.tuning.chunkSize)
  pass.drain account reclaimable claim.lease streamed.ending streamed.items
    ⟨claim.state, [], [], SyncApplied.zero⟩

/-- A pass that was fenced off ends where another has the scope or has moved its cursor.  It is
`none` while the pass goes on with its claim. -/
def afterFence (fenced : Option (Option SyncState × SyncApplied)) (claimed : Result SyncClaim) :
    Driver (I.mail γ) (Option SyncApplied) :=
  match fenced, claimed with
  | some (_, applied), .error .scopeHeld => return some applied
  | some (left, applied), .ok claim =>
    if claim.state ≠ left then do
      orFail (releaseSyncScope claim.lease)
      return some applied
    else return none
  | _, _ => return none

/-- One claim and the pass under it.  `again` is the next claim of a pass that is fenced off, while there
is one left; without one no pass is. -/
def claimAndStream (fenced : Option (Option SyncState × SyncApplied))
    (again : Option (Option SyncState × SyncApplied → Driver (I.mail γ) SyncApplied)) :
    Driver (I.mail γ) SyncApplied := do
  let claimed ← answer (claimSyncScope account (pass.scope account) pass.req)
  match ← afterFence fenced claimed with
  | some applied => return applied
  | none =>
    match claimed with
    | .error e => throw (.store e)
    | .ok claim =>
      match ← pass.stream account again.isSome claim, again with
      | .finished applied, _ => return applied
      | .fenced left applied, some again => again (left, applied)
      | .fenced _ applied, none => return applied

/-- `reclaims` is how many claims are left after a stale commit. -/
def restart : Nat → Option (Option SyncState × SyncApplied) → Driver (I.mail γ) SyncApplied
  | 0, fenced => pass.claimAndStream account fenced none
  | reclaims + 1, fenced =>
    pass.claimAndStream account fenced (some fun fenced => restart reclaims (some fenced))

end FolderPass

def streamEmail (pass : FolderPass I γ) (account : AccountId) : Driver (I.mail γ) SyncApplied :=
  pass.restart account maxStaleReclaims none

end Stream

/-! ## Moving the horizon -/

section Horizon

variable {I : Interface} {ε : Type}

abbrev Interface.calendar (I : Interface) : Interface := { I with Derived := DerivedWrite }

/-- What reads a stored event and expands it: the decoder of its payload and the expander, which
refuses what it does not support. -/
structure Expander (ω ε : Type) where
  decode : ω → Except String ε
  expand : ε → Horizon → String → Except String (List OccurrenceRow)

structure UnexpandableEvent where
  event : ProviderKey
  reason : String

structure HorizonExpansion where
  occurrences : Nat
  skipped : Nat
  unexpandable : List UnexpandableEvent

namespace Expander

variable (expander : Expander I.Payload ε) (window : ExpansionWindow)

def pushEvent (derived : DerivedWrite) (unexpandable : List UnexpandableEvent) (key : ProviderKey)
    (event : ε) : DerivedWrite × List UnexpandableEvent :=
  let derived := { derived with removed := derived.removed ++ [key] }
  match expander.expand event window.horizon window.zone with
  | .ok occurrences => ({ derived with occurrences := derived.occurrences ++ occurrences }, unexpandable)
  | .error reason => (derived, unexpandable ++ [⟨key, reason⟩])

def expandAll (scope : SyncScope) :
    List ProviderKey → DerivedWrite × List UnexpandableEvent →
      Driver I.calendar (DerivedWrite × List UnexpandableEvent)
  | [], done => return done
  | key :: keys, done => do
    match ← orFail (objectPayload scope key) with
    | none => expandAll scope keys done
    | some payload =>
      match expander.decode payload with
      | .error text => throw (.decode text)
      | .ok event => expandAll scope keys (expander.pushEvent window done.1 done.2 key event)

/-- Rewrites the occurrences of one scope under its lease, and records what they are expanded over. -/
def expandScope (account : AccountId) (req : LeaseRequest) (scope : SyncScope)
    (report : HorizonExpansion) : Driver I.calendar HorizonExpansion := do
  let claim ← orFail (claimSyncScope account scope req)
  let keys ← orFail (objectKeys scope)
  let (derived, unexpandable) ←
    expander.expandAll window scope keys (DerivedWrite.empty, report.unexpandable)
  let report :=
    { report with occurrences := report.occurrences + derived.occurrences.length, unexpandable }
  match ← answer (applyMaintenance claim.lease derived) with
  | .error e => releaseAndFail claim.lease (.store e)
  | .ok () =>
    match ← answer (setExpansionWindow claim.lease window) with
    | .error e => releaseAndFail claim.lease (.store e)
    | .ok () =>
      orFail (releaseSyncScope claim.lease)
      return report

/-- The scopes in turn.  One already expanded over the window is passed over. -/
def expandScopes (account : AccountId) (req : LeaseRequest) :
    List SyncScope → HorizonExpansion → Driver I.calendar HorizonExpansion
  | [], report => return report
  | scope :: scopes, report => do
    let expanded ← orFail (expansionWindow scope)
    if expanded = some window then
      expandScopes account req scopes { report with skipped := report.skipped + 1 }
    else do
      let report ← expander.expandScope window account req scope report
      expandScopes account req scopes report

end Expander

def expandCalendarHorizon (expander : Expander I.Payload ε) (account : AccountId)
    (req : LeaseRequest) (window : ExpansionWindow) : Driver I.calendar HorizonExpansion := do
  let scopes ← orFail (accountScopes account)
  expander.expandScopes window account req
    (scopes.filter fun scope => scope.objectKind = some .event) ⟨0, 0, []⟩

end Horizon

/-! ## Forgetting -/

section Forget

variable {I : Interface} (account : AccountId) (req : LeaseRequest)

/-- Whether a scope holds neither objects nor a cursor.  The keys are not read where there is a cursor. -/
def alreadyEmpty (scope : SyncScope) : Driver I Bool := do
  let state ← orFail (loadSyncState account scope)
  if state.isSome then return false
  else
    let keys ← orFail (objectKeys scope)
    return keys.isEmpty

/-- Forgets one scope, unless it is empty or another worker holds it. -/
def forgetOne (scope : SyncScope) (forgotten : Nat) : Driver I Nat := do
  if ← alreadyEmpty account scope then return forgotten
  else
    match ← answer (claimSyncScope account scope req) with
    | .error .scopeHeld => return forgotten
    | .error e => throw (.store e)
    | .ok claim =>
      orFail (forgetScope claim.lease)
      return forgotten + 1

def forgetEach : List SyncScope → Nat → Driver I Nat
  | [], forgotten => return forgotten
  | scope :: scopes, forgotten => do
    let forgotten ← forgetOne account req scope forgotten
    forgetEach scopes forgotten

def forgetScopes (scopes : List SyncScope) : Driver I Nat := forgetEach account req scopes 0

end Forget

end Drivers
end SyncEngine
