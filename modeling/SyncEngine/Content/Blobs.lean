import SyncEngine.Scope.Fence

/-!
# Sources as files named by their hash

A cached source is a file under the hash of its bytes and a row that names the hash.  A put writes the file and
then the row; a get reads the row and then the file, and takes a file whose bytes have another hash for none.  A row
that goes leaves its file, and a sweep removes the files that no row names, one after the other.  None of this holds
a lock across its steps: a task is such a call, at the step it takes next.
-/

namespace SyncEngine
namespace Content

/-!
## Messages and the content cached for them

Beside the list rows of mail, one for each message in each scope, are three caches without a lease: the text of a
body, the raw source, and whether it has an attachment.  They are keyed by account and key, because a body is read
without a scope.  A removed message takes its cached content along, unless another scope of the account has its key.
-/

variable {ω : Type}

/-- A row of `message`, as far as it is read here: its account, and the day of its date. -/
structure MessageRow where
  account : AccountId
  day : Option Nat
  deriving DecidableEq, Repr

/-- A message row an apply writes. -/
structure MailRow where
  key : ProviderKey
  day : Option Nat
  deriving DecidableEq, Repr

structure MessageBody where
  plain : Option String
  html : Option String
  deriving DecidableEq, Repr

/-- A row of `message_body`: a body without plain text has an empty one. -/
structure BodyRow where
  plain : String
  html : Option String
  deriving DecidableEq, Repr

abbrev RawMime := List UInt8

/-- What the caches are keyed by. -/
abbrev Held := AccountId × ProviderKey

structure Tables where
  message : Keyed (SyncScope × ProviderKey) MessageRow
  messageBody : Keyed Held BodyRow
  messageSource : Keyed Held RawMime
  sourceAttachment : Keyed Held Bool

namespace Tables

def empty : Tables := ⟨.empty, .empty, .empty, .empty⟩

/-- The key is a message of some scope of the account. -/
def live (t : Tables) (held : Held) : Bool :=
  t.message.rows.any fun r => decide (r.2.account = held.1) && decide (r.1.2 = held.2)

def cached (t : Tables) (held : Held) : Bool :=
  (t.messageBody.get? held).isSome || (t.messageSource.get? held).isSome ||
    (t.sourceAttachment.get? held).isSome

/-- Deletes the cached rows `p` selects. -/
def uncache (t : Tables) (p : Held → Bool) : Tables :=
  { t with
    messageBody := t.messageBody.filterRows fun k _ => !p k
    messageSource := t.messageSource.filterRows fun k _ => !p k
    sourceAttachment := t.sourceAttachment.filterRows fun k _ => !p k }

/-- Deletes the message rows `p` selects. -/
def strip (t : Tables) (p : SyncScope × ProviderKey → Bool) : Tables :=
  { t with message := t.message.filterRows fun k _ => !p k }

/-- Drops what is cached for a removed message, unless its key is a message of the account still.  A scope
without a row has no account, and nothing is dropped. -/
def dropCachedContent (t : Tables) (account : Option AccountId) (key : ProviderKey) : Tables :=
  match account with
  | none => t
  | some account =>
    if t.live (account, key) then t else t.uncache fun held => decide (held = (account, key))

def tombstone (t : Tables) (account : Option AccountId) (scope : SyncScope) (key : ProviderKey) : Tables :=
  (t.strip fun k => decide (k = (scope, key))).dropCachedContent account key

def tombstoneAll (t : Tables) (account : Option AccountId) (scope : SyncScope) (keys : List ProviderKey) :
    Tables :=
  keys.foldl (fun t key => t.tombstone account scope key) t

def upsertMessage (t : Tables) (account : AccountId) (scope : SyncScope) (row : MailRow) : Tables :=
  { t with message := t.message.put (scope, row.key) ⟨account, row.day⟩ }

/-- The derived rows of a scope: those of the removed keys go, cached content or not, and then the message rows
are written. -/
def applyDerived (t : Tables) (account : AccountId) (scope : SyncScope) (removed : List ProviderKey)
    (rows : List MailRow) : Tables :=
  rows.foldl (fun t row => t.upsertMessage account scope row)
    (t.strip fun k => decide (k.1 = scope) && decide (k.2 ∈ removed))

end Tables

/-! ## The store -/

structure Store (ω : Type) where
  base : Scope.Store ω
  tables : Tables

inductive Call (ω : Type) where
  | scopes (call : Scope.Call ω) (rows : List MailRow)
  | prune (account : AccountId) (floor : Nat)
  | putMessageSource (held : Held) (source : RawMime)
  | putMessageBody (held : Held) (body : MessageBody)
  | setMailHasAttachment (held : Held) (hasAttachment : Bool)
  | dropMessageSourcesOver (account : AccountId) (octets : Nat)

namespace Store

def new : Store ω := ⟨Scope.Store.new, .empty⟩

def accountOf (st : Store ω) (scope : SyncScope) : Option AccountId :=
  (st.base.syncScope.get? scope).map Scope.ScopeRow.account

/-- The account a current lease writes for; a lease that is not current writes nothing. -/
def under (st : Store ω) (lease : SyncLease) : Option AccountId :=
  if st.base.isCurrent lease.scope lease.token then st.accountOf lease.scope else none

def removedKeys (st : Store ω) (scope : SyncScope) : SyncUpdate ω → List ProviderKey
  | .delta _ removed => removed
  | .snapshot objects present =>
    ((st.base.upsertAll scope objects).objectKeys scope).filter fun key => !present.contains key

def scopesTables (st : Store ω) (rows : List MailRow) : Scope.Call ω → Tables
  | .apply lease update derived _ =>
    match st.under lease with
    | none => st.tables
    | some account =>
      (st.tables.tombstoneAll (some account) lease.scope (st.removedKeys lease.scope update)).applyDerived
        account lease.scope derived.removed rows
  | .maintenance lease derived =>
    match st.under lease with
    | none => st.tables
    | some account => st.tables.applyDerived account lease.scope derived.removed rows
  | .forgetScope lease =>
    match st.under lease with
    | none => st.tables
    | some _ => st.tables.strip fun k => decide (k.1 = lease.scope)
  | .purgeAccount account =>
    (st.tables.strip fun k => st.base.ownedBy account k.1).uncache fun held => decide (held.1 = account)
  | .purgeDomain account domain =>
    let stripped := st.tables.strip fun k =>
      st.base.ownedBy account k.1 && decide (k.1.domain = some domain)
    if domain = .mail then stripped.uncache fun held => decide (held.1 = account) else stripped
  | _ => st.tables

def outOfWindow (st : Store ω) (account : AccountId) (floor : Nat) : List (SyncScope × ProviderKey) :=
  (st.tables.message.rows.filter fun r =>
    st.base.ownedBy account r.1.1 && decide (r.1.1.objectKind = some .message) &&
      r.2.day.any fun day => decide (day < floor)).map Prod.fst

def tombstone (st : Store ω) (k : SyncScope × ProviderKey) : Store ω where
  base := st.base.tombstone k.1 k.2
  tables := st.tables.tombstone (st.accountOf k.1) k.1 k.2

def run (st : Store ω) (call : Call ω) (now : UtcDateTime) : Store ω :=
  match call with
  | .scopes call rows => ⟨(st.base.run call now).1, st.scopesTables rows call⟩
  | .prune account floor => (st.outOfWindow account floor).foldl tombstone st
  | .putMessageSource held source =>
    { st with tables := { st.tables with messageSource := st.tables.messageSource.put held source } }
  | .putMessageBody held body =>
    { st with
      tables := { st.tables with
        messageBody := st.tables.messageBody.put held ⟨body.plain.getD "", body.html⟩ } }
  | .setMailHasAttachment held answer =>
    { st with tables := { st.tables with sourceAttachment := st.tables.sourceAttachment.put held answer } }
  | .dropMessageSourcesOver account octets =>
    { st with
      tables := { st.tables with
        messageSource := st.tables.messageSource.filterRows fun held source =>
          !(decide (held.1 = account) && decide (octets < source.length)) } }

def getMessageBody (st : Store ω) (held : Held) : Option MessageBody :=
  (st.tables.messageBody.get? held).map fun row =>
    ⟨if row.plain = "" then none else some row.plain, row.html⟩

end Store

end Content

namespace Content

/-- The name of a blob: its SHA-256, as text. -/
abbrev Hash := String

inductive Namespace where
  | sources
  | contactPhotos
  deriving DecidableEq, Repr

/-- Where a blob is: `<namespace>/<hash>` with the namespace's extension. -/
abbrev Path := Namespace × Hash

structure BlobFile where
  bytes : RawMime
  modified : Nat
  deriving DecidableEq, Repr

/-- A row of `message_source`.  Rows of old stores have no size. -/
structure SourceRow where
  contentHash : Hash
  size : Option Nat
  deriving DecidableEq, Repr

abbrev PhotoRef := AccountId × String × String

structure Disk where
  files : Keyed Path BlobFile
  messageSource : Keyed Held SourceRow
  contactPhoto : Keyed PhotoRef Hash

/-- What a put writes a row for. -/
inductive Target where
  | source (held : Held)
  | photo (ref : PhotoRef)
  deriving DecidableEq, Repr

def Target.namespace : Target → Namespace
  | .source _ => .sources
  | .photo _ => .contactPhotos

/-- A count as the column has it, a signed 64-bit integer. -/
def octetCount (n : Nat) : Nat := min n (2 ^ 63 - 1)

def sweepGrace : Nat := 5 * 60 * second

/-- A file a sweep may remove if no row names its hash. -/
structure Candidate where
  path : Path
  len : Nat
  deriving DecidableEq, Repr

structure SweepReport where
  blobsRemoved : Nat
  bytesReclaimed : Nat
  deriving DecidableEq, Repr

structure SourcesDropped where
  sourcesRemoved : Nat
  octetsFreed : Nat
  deriving DecidableEq, Repr

/-- A file modified after `now` has no age, and counts as young. -/
def BlobFile.young (file : BlobFile) (now : Nat) : Bool :=
  decide (now < file.modified) || decide (now - file.modified < sweepGrace)

namespace Disk

section Digest

variable (digest : RawMime → Hash)

def readBlob (d : Disk) (path : Path) : Option RawMime :=
  (d.files.get? path).bind fun file => if digest file.bytes = path.2 then some file.bytes else none

def persist (d : Disk) (path : Path) (bytes : RawMime) (modified : Nat) : Disk :=
  { d with files := d.files.put path ⟨bytes, modified⟩ }

/-- Writes the row that names the blob of these bytes. -/
def record (d : Disk) (target : Target) (bytes : RawMime) : Disk :=
  match target with
  | .source held =>
    { d with messageSource := d.messageSource.put held ⟨digest bytes, some (octetCount bytes.length)⟩ }
  | .photo ref => { d with contactPhoto := d.contactPhoto.put ref (digest bytes) }

def selectHash (d : Disk) (held : Held) : Option Hash :=
  (d.messageSource.get? held).map SourceRow.contentHash

/-- The two steps of a get with nothing between them. -/
def getMessageSource (d : Disk) (held : Held) : Option RawMime :=
  (d.selectHash held).bind fun hash => d.readBlob digest (.sources, hash)

end Digest

def candidates (d : Disk) (now : Nat) : List Candidate :=
  (d.files.rows.filter fun f => !f.2.young now).map fun f => ⟨f.1, f.2.bytes.length⟩

def referencedHashes (d : Disk) : List Hash :=
  d.messageSource.rows.map (fun r => r.2.contentHash) ++ d.contactPhoto.rows.map Prod.snd

def unlink (d : Disk) (path : Path) : Disk := { d with files := d.files.filterRows fun p _ => decide (p ≠ path) }

def unsizedRows (d : Disk) (account : AccountId) : List (ProviderKey × Hash) :=
  (d.messageSource.rows.filter fun r => decide (r.1.1 = account) && r.2.size.isNone).map fun r =>
    (r.1.2, r.2.contentHash)

def measure (d : Disk) (hash : Hash) : Option Nat :=
  (d.files.get? (.sources, hash)).map fun file => octetCount file.bytes.length

def recordMeasuredSize (d : Disk) (held : Held) (size : Nat) : Disk :=
  { d with messageSource := d.messageSource.modify held fun row => { row with size := some size } }

def «over» (account : AccountId) (octets : Nat) (held : Held) (row : SourceRow) : Bool :=
  decide (held.1 = account) && row.size.any fun size => decide (octetCount octets < size)

def sourcesOver (d : Disk) (account : AccountId) (octets : Nat) : SourcesDropped :=
  let sizes := (d.messageSource.rows.filter fun r => «over» account octets r.1 r.2).filterMap fun r => r.2.size
  ⟨sizes.length, sizes.sum⟩

def deleteSourcesOver (d : Disk) (account : AccountId) (octets : Nat) : Disk :=
  { d with messageSource := d.messageSource.filterRows fun held row => !«over» account octets held row }

end Disk

/-! ## Calls in progress -/

inductive Task where
  | checking (target : Target) (bytes : RawMime)
  | staging (target : Target) (bytes : RawMime)
  | recording (target : Target) (bytes : RawMime)
  | stored (target : Target) (bytes : RawMime)
  | selecting (held : Held)
  | reading (held : Held) (hash : Hash)
  | got (held : Held) (found : Option RawMime)
  | unsized (account : AccountId) (octets : Nat)
  | measuring (account : AccountId) (octets : Nat) (rows : List (ProviderKey × Hash))
  | sizing (account : AccountId) (octets : Nat) (measured : List (ProviderKey × Option Nat))
  | dropping (account : AccountId) (octets : Nat)
  | dropped (report : SourcesDropped)
  | listing (now : Nat)
  | querying (candidates : List Candidate)
  | removing (candidates : List Candidate) (live : List Hash) (report : SweepReport)
  | swept (report : SweepReport)
  | failed
  deriving DecidableEq, Repr

section Step

variable (digest : RawMime → Hash)

def blobPath (target : Target) (bytes : RawMime) : Path := (target.namespace, digest bytes)

def SweepReport.removed (report : SweepReport) (candidate : Candidate) : SweepReport :=
  ⟨report.blobsRemoved + 1, report.bytesReclaimed + candidate.len⟩

/-- One step of a task; `modified` is the time a file written in it gets.  A call that has returned takes no
step. -/
def Task.step (d : Disk) (modified : Nat) : Task → Option (Disk × Task)
  | .checking target bytes =>
    if (d.files.get? (blobPath digest target bytes)).isSome then some (d, .recording target bytes)
    else some (d, .staging target bytes)
  | .staging target bytes =>
    -- the temporary file is renamed «over» whatever is there by then
    some (d.persist (blobPath digest target bytes) bytes modified, .recording target bytes)
  | .recording target bytes => some (d.record digest target bytes, .stored target bytes)
  | .selecting held =>
    match d.selectHash held with
    | none => some (d, .got held none)
    | some hash => some (d, .reading held hash)
  | .reading held hash => some (d, .got held (d.readBlob digest (.sources, hash)))
  | .unsized account octets =>
    match d.unsizedRows account with
    | [] => some (d, .dropping account octets)
    | rows => some (d, .measuring account octets rows)
  | .measuring account octets rows =>
    some (d, .sizing account octets (rows.map fun r => (r.1, d.measure r.2)))
  | .sizing account octets [] => some (d, .dropping account octets)
  | .sizing account octets ((_, none) :: rest) => some (d, .sizing account octets rest)
  | .sizing account octets ((key, some size) :: rest) =>
    some (d.recordMeasuredSize (account, key) size, .sizing account octets rest)
  | .dropping account octets =>
    some (d.deleteSourcesOver account octets, .dropped (d.sourcesOver account octets))
  | .listing now =>
    match d.candidates now with
    | [] => some (d, .swept ⟨0, 0⟩)
    | candidates => some (d, .querying candidates)
  | .querying candidates => some (d, .removing candidates d.referencedHashes ⟨0, 0⟩)
  | .removing [] _ report => some (d, .swept report)
  | .removing (candidate :: rest) live report =>
    if candidate.path.2 ∈ live then some (d, .removing rest live report)
    else if (d.files.get? candidate.path).isSome then
      some (d.unlink candidate.path, .removing rest live (report.removed candidate))
    else some (d, .removing rest live report)
  | .stored _ _ | .got _ _ | .dropped _ | .swept _ | .failed => none

def Task.returned : Task → Bool
  | .stored _ _ | .got _ _ | .dropped _ | .swept _ | .failed => true
  | _ => false

/-! ## The store's calls beside each other -/

/-- The calls a task can be. -/
inductive Op where
  | put (target : Target) (bytes : RawMime)
  | getMessageSource (held : Held)
  | dropMessageSourcesOver (account : AccountId) (octets : Nat)
  | sweepUnreferencedBlobs (now : Nat)
  deriving DecidableEq, Repr

def Op.task : Op → Task
  | .put target bytes => .checking target bytes
  | .getMessageSource held => .selecting held
  | .dropMessageSourcesOver account octets => .unsized account octets
  | .sweepUnreferencedBlobs now => .listing now

/-- Besides the steps of the calls: a call fails or is dropped at a step, messages and photos are removed by
statements of their own, and the directory changes from outside. -/
inductive FileEvent where
  | begin (op : Op)
  | act (i : Nat) (modified : Nat)
  | fail (i : Nat)
  | removeMessages (helds : List Held)
  | removePhotos (refs : List PhotoRef)
  | damage (path : Path) (file : Option BlobFile)
  deriving DecidableEq, Repr

/-- The disk, the calls so far, and the bytes of the last put that wrote a row for each key.  No call reads the
last. -/
structure Area where
  disk : Disk
  tasks : List Task
  lastPut : Keyed Held RawMime

namespace Area

def damaged (d : Disk) (path : Path) : Option BlobFile → Disk
  | none => d.unlink path
  | some file => { d with files := d.files.put path file }

def putBy (lastPut : Keyed Held RawMime) : Task → Keyed Held RawMime
  | .recording (.source held) bytes => lastPut.put held bytes
  | _ => lastPut

def act (s : Area) (i modified : Nat) (t : Task) : Option Area :=
  (t.step digest s.disk modified).map fun r => ⟨r.1, s.tasks.set i r.2, putBy s.lastPut t⟩

def step (s : Area) : FileEvent → Option Area
  | .begin op => some { s with tasks := s.tasks ++ [op.task] }
  | .act i modified => (s.tasks[i]?).bind fun t => s.act digest i modified t
  | .fail i =>
    (s.tasks[i]?).bind fun t => if t.returned then none else some { s with tasks := s.tasks.set i .failed }
  | .removeMessages helds =>
    some { s with
      disk := { s.disk with messageSource := s.disk.messageSource.filterRows fun k _ => decide (k ∉ helds) } }
  | .removePhotos refs =>
    some { s with
      disk := { s.disk with contactPhoto := s.disk.contactPhoto.filterRows fun k _ => decide (k ∉ refs) } }
  | .damage path file => some { s with disk := damaged s.disk path file }

end Area

end Step

end Content
end SyncEngine
