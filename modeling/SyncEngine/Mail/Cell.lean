import SyncEngine.Scope.Store
import SyncEngine.Library.Journal

/-!
# What a store holds of one scope

The payloads of its objects, the rows derived from them and the cursor, and what applying a batch does to them.  The
two stores differ in one table: the reference store appends the occurrences of a batch, and the durable one keys them
by their start and recurrence id.
-/

namespace SyncEngine
namespace Mail

/-!
## Objects and the rows derived from them

A provider sends a message whole, or says only how its state moved.  The store keeps the content of an object as its
payload, and beside it the rows a list, a search or a calendar reads.  The type `γ` is what a provider says of an
object apart from a message's state.
-/

abbrev Keywords := List String

/-- The system keywords a list row is drawn from. -/
structure MailFlags where
  seen : Bool
  flagged : Bool
  draft : Bool
  answered : Bool
deriving DecidableEq, Repr

def MailFlags.fromKeywords (keywords : Keywords) : MailFlags where
  seen := "$seen" ∈ keywords
  flagged := "$flagged" ∈ keywords
  draft := "$draft" ∈ keywords
  answered := "$answered" ∈ keywords

structure RevisionTokens where
  etag : Option String
  scheduleTag : Option String
  changeKey : Option String
  modSeq : Option Nat
deriving DecidableEq, Repr

namespace RevisionTokens

def none : RevisionTokens := ⟨.none, .none, .none, .none⟩

def or (tokens prior : RevisionTokens) : RevisionTokens where
  etag := tokens.etag.or prior.etag
  scheduleTag := tokens.scheduleTag.or prior.scheduleTag
  changeKey := tokens.changeKey.or prior.changeKey
  modSeq := tokens.modSeq.or prior.modSeq

end RevisionTokens

/-- A message, which is always in some mailbox. -/
structure Message (γ : Type) where
  key : ProviderKey
  content : γ
  date : Option UtcDateTime
  threadId : Option String
  preview : Option String
  mailboxes : List String
  filed : mailboxes ≠ []
  keywords : Keywords
  revisions : RevisionTokens
  lastModified : Option UtcDateTime
deriving DecidableEq

/-- A message's state after a change, where it is filed only if the provider says so. -/
structure MailState where
  keywords : Keywords
  mailboxes : Option (List String)
  revisions : RevisionTokens
  lastModified : Option UtcDateTime
deriving DecidableEq

structure MailStateChange where
  key : ProviderKey
  state : MailState
deriving DecidableEq

/-! ## Rows -/

structure FtsRow (γ : Type) where
  key : ProviderKey
  content : γ
deriving DecidableEq

/-- The row of a message.  The columns the provider alone decides are functions of its content. -/
structure MailRow (γ : Type) where
  key : ProviderKey
  content : γ
  date : Option UtcDateTime
  threadId : Option String
  preview : Option String
  flags : MailFlags
  revisions : RevisionTokens
  lastModified : Option UtcDateTime
deriving DecidableEq

structure MailStateRow where
  key : ProviderKey
  flags : MailFlags
  keywords : List String
  mailboxes : Option (List String)
  revisions : RevisionTokens
  lastModified : Option UtcDateTime
deriving DecidableEq

structure MailThreadRow where
  key : ProviderKey
  threadId : String
deriving DecidableEq

structure MailRefRow where
  key : ProviderKey
  msgid : String
  owned : Bool
deriving DecidableEq

structure MailAddressRow where
  key : ProviderKey
  field : String
  address : String
deriving DecidableEq

inductive MembershipKind
  | mailbox
  | keyword
  | calendar
deriving DecidableEq, Repr

structure MembershipRow where
  key : ProviderKey
  kind : MembershipKind
  value : String
deriving DecidableEq, Repr

structure EventIndexRow where
  key : ProviderKey
  hasConference : Bool
  myPartstat : Option String
deriving DecidableEq

structure EventParticipantRow where
  key : ProviderKey
  role : String
  address : String
  partstat : Option String
deriving DecidableEq

/-- The derived rows of one batch. -/
structure DerivedWrite (γ : Type) where
  fts : List (FtsRow γ)
  occurrences : List OccurrenceRow
  messages : List (MailRow γ)
  stateChanges : List MailStateRow
  threadAssignments : List MailThreadRow
  msgidRefs : List MailRefRow
  addresses : List MailAddressRow
  memberships : List MembershipRow
  eventIndex : List EventIndexRow
  participants : List EventParticipantRow
  removed : List ProviderKey
  resetOccurrences : List ProviderKey

def DerivedWrite.empty {γ : Type} : DerivedWrite γ :=
  ⟨[], [], [], [], [], [], [], [], [], [], [], []⟩

/-! ## Updates -/

/-- A batch of changes for one scope: what changed, or everything there is. -/
inductive SyncUpdate (ω π : Type)
  | delta (changed : List (ProviderKey × ω)) (patched : List π) (removed : List ProviderKey)
  | snapshot (objects : List (ProviderKey × ω)) (present : List ProviderKey)

namespace SyncUpdate

variable {ω π : Type}

def changed : SyncUpdate ω π → List (ProviderKey × ω)
  | delta changed _ _ => changed
  | snapshot objects _ => objects

def patched : SyncUpdate ω π → List π
  | delta _ patched _ => patched
  | snapshot _ _ => []

def removed : SyncUpdate ω π → List ProviderKey
  | delta _ _ removed => removed
  | snapshot _ _ => []

end SyncUpdate

inductive StoreKind
  | reference
  | durable
deriving DecidableEq

structure ScopeCell (γ : Type) where
  state : Option SyncState
  objects : Keyed ProviderKey γ
  fts : Keyed ProviderKey γ
  occurrences : Keyed ProviderKey (List OccurrenceRow)
  messages : Keyed ProviderKey (MailRow γ)
  refs : Keyed ProviderKey (List MailRefRow)
  addresses : Keyed ProviderKey (List MailAddressRow)
  memberships : Keyed ProviderKey (List MembershipRow)
  eventIndex : Keyed ProviderKey EventIndexRow
  participants : Keyed ProviderKey (List EventParticipantRow)

structure SyncApplied where
  upserted : Nat
  tombstoned : Nat
deriving DecidableEq, Repr

namespace ScopeCell

variable {γ : Type}

def new : ScopeCell γ :=
  ⟨none, Keyed.empty, Keyed.empty, Keyed.empty, Keyed.empty, Keyed.empty, Keyed.empty, Keyed.empty,
    Keyed.empty, Keyed.empty⟩

def removeDerived (cell : ScopeCell γ) (key : ProviderKey) : ScopeCell γ :=
  { cell with
    fts := cell.fts.filterRows fun k _ => k ≠ key
    occurrences := cell.occurrences.filterRows fun k _ => k ≠ key
    messages := cell.messages.filterRows fun k _ => k ≠ key
    refs := cell.refs.filterRows fun k _ => k ≠ key
    addresses := cell.addresses.filterRows fun k _ => k ≠ key
    memberships := cell.memberships.filterRows fun k _ => k ≠ key
    eventIndex := cell.eventIndex.filterRows fun k _ => k ≠ key
    participants := cell.participants.filterRows fun k _ => k ≠ key }

def tombstone (cell : ScopeCell γ) (key : ProviderKey) : ScopeCell γ :=
  { cell with objects := cell.objects.filterRows fun k _ => k ≠ key }.removeDerived key

def upsertObject (cell : ScopeCell γ) (object : ProviderKey × γ) : ScopeCell γ :=
  { cell with objects := cell.objects.put object.1 object.2 }

/-! ## Derived rows -/

def resetOccurrences (cell : ScopeCell γ) (key : ProviderKey) : ScopeCell γ :=
  { cell with occurrences := cell.occurrences.filterRows fun k _ => k ≠ key }

def putFts (cell : ScopeCell γ) (row : FtsRow γ) : ScopeCell γ :=
  { cell with fts := cell.fts.put row.key row.content }

def placeOccurrence (kind : StoreKind) (occ : OccurrenceRow) (rows : List OccurrenceRow) :
    List OccurrenceRow :=
  match kind with
  | .reference => rows ++ [occ]
  | .durable =>
    rows.filter (fun r => (r.start, r.recurrenceId) ≠ (occ.start, occ.recurrenceId)) ++ [occ]

def putOccurrence (kind : StoreKind) (cell : ScopeCell γ) (occ : OccurrenceRow) : ScopeCell γ :=
  { cell with
    occurrences := cell.occurrences.put occ.event
      (placeOccurrence kind occ ((cell.occurrences.get? occ.event).getD [])) }

/-- No provider supplies a thread or a preview where it says nothing of it, so what is stored is
kept. -/
def keepStored (row : MailRow γ) (stored : Option (MailRow γ)) : MailRow γ :=
  { row with
    threadId := row.threadId.or (stored.bind MailRow.threadId)
    preview := row.preview.or (stored.bind MailRow.preview) }

def putMessage (cell : ScopeCell γ) (row : MailRow γ) : ScopeCell γ :=
  { cell with
    messages := cell.messages.put row.key (keepStored row (cell.messages.get? row.key)) }

def withState (row : MailRow γ) (change : MailStateRow) : MailRow γ :=
  { row with
    flags := change.flags
    revisions := change.revisions.or row.revisions
    lastModified := change.lastModified.or row.lastModified }

def replaceKind (key : ProviderKey) (kind : MembershipKind) (values : List String)
    (rows : List MembershipRow) : List MembershipRow :=
  rows.filter (fun m => m.kind ≠ kind) ++ values.map fun value => ⟨key, kind, value⟩

def changedMemberships (change : MailStateRow) (rows : List MembershipRow) : List MembershipRow :=
  let rows := replaceKind change.key .keyword change.keywords rows
  match change.mailboxes with
  | none => rows
  | some mailboxes => replaceKind change.key .mailbox mailboxes rows

def applyStateChange (cell : ScopeCell γ) (change : MailStateRow) : ScopeCell γ :=
  match cell.messages.get? change.key with
  | none => cell
  | some row =>
    { cell with
      messages := cell.messages.put change.key (withState row change)
      memberships := cell.memberships.put change.key
        (changedMemberships change ((cell.memberships.get? change.key).getD [])) }

def assignThread (cell : ScopeCell γ) (row : MailThreadRow) : ScopeCell γ :=
  { cell with
    messages := cell.messages.modify row.key fun m => { m with threadId := some row.threadId } }

def putEventIndex (cell : ScopeCell γ) (row : EventIndexRow) : ScopeCell γ :=
  { cell with eventIndex := cell.eventIndex.put row.key row }

def replaceRows {ρ : Type} (table : Keyed ProviderKey (List ρ)) (key : ρ → ProviderKey)
    (rows : List ρ) : Keyed ProviderKey (List ρ) :=
  (Keyed.group rows key).rows.foldl (fun t r => t.put r.1 r.2) table

def applyDerived (kind : StoreKind) (cell : ScopeCell γ) (derived : DerivedWrite γ) :
    ScopeCell γ :=
  let cell := derived.removed.foldl removeDerived cell
  let cell := derived.resetOccurrences.foldl resetOccurrences cell
  let cell := derived.fts.foldl putFts cell
  let cell := derived.occurrences.foldl (putOccurrence kind) cell
  let cell := derived.messages.foldl putMessage cell
  let cell := derived.stateChanges.foldl applyStateChange cell
  let cell := derived.threadAssignments.foldl assignThread cell
  let cell := derived.eventIndex.foldl putEventIndex cell
  { cell with
    refs := replaceRows cell.refs MailRefRow.key derived.msgidRefs
    addresses := replaceRows cell.addresses MailAddressRow.key derived.addresses
    memberships := replaceRows cell.memberships MembershipRow.key derived.memberships
    participants := replaceRows cell.participants EventParticipantRow.key derived.participants }

/-! ## Applying a batch -/

/-- The keys of stored objects a present set does not name. -/
def absent (cell : ScopeCell γ) (present : List ProviderKey) : List ProviderKey :=
  cell.objects.keys.filter fun k => k ∉ present

def tombstoneCounted (cell : ScopeCell γ) (keys : List ProviderKey) : ScopeCell γ × Nat :=
  keys.foldl (fun (cell, n) key =>
    (cell.tombstone key, if (cell.objects.get? key).isSome then n + 1 else n)) (cell, 0)

def applyUpdate {π : Type} (cell : ScopeCell γ) : SyncUpdate γ π → ScopeCell γ × SyncApplied
  | .delta changed _ removed =>
    let (cell, tombstoned) := (changed.foldl upsertObject cell).tombstoneCounted removed
    (cell, ⟨changed.length, tombstoned⟩)
  | .snapshot objects present =>
    let cell := objects.foldl upsertObject cell
    let absent := cell.absent present
    (absent.foldl tombstone cell, ⟨objects.length, absent.length⟩)

/-- The cursor moves where the batch carries one. -/
def setCursor (cell : ScopeCell γ) (next : Option SyncState) : ScopeCell γ :=
  { cell with state := next.or cell.state }

def apply {π : Type} (kind : StoreKind) (cell : ScopeCell γ) (update : SyncUpdate γ π)
    (derived : DerivedWrite γ) (next : Option SyncState) : ScopeCell γ × SyncApplied :=
  let (cell, applied) := cell.applyUpdate update
  ((cell.applyDerived kind derived).setCursor next, applied)

end ScopeCell

namespace ScopeCell

/-!
## The objects of a scope

What each part of an apply does to the stored objects.  Derived rows leave them alone, so what a batch
does to the objects is what its update does.
-/

variable {γ : Type}

variable (cell : ScopeCell γ)

@[simp]
theorem objects_removeDerived (key : ProviderKey) : (cell.removeDerived key).objects = cell.objects :=
  rfl

theorem objects_applyStateChange (change : MailStateRow) : (cell.applyStateChange change).objects = cell.objects := by
  unfold applyStateChange
  cases cell.messages.get? change.key with
  | none => rfl
  | some row => rfl

@[simp]
theorem objects_applyDerived (kind : StoreKind) (cell : ScopeCell γ) (derived : DerivedWrite γ) :
    (cell.applyDerived kind derived).objects = cell.objects := by
  unfold applyDerived
  show (derived.eventIndex.foldl putEventIndex _).objects = _
  rw [foldl_frame objects putEventIndex fun _ _ => rfl, foldl_frame objects assignThread fun _ _ => rfl,
    foldl_frame objects applyStateChange objects_applyStateChange,
    foldl_frame objects putMessage fun _ _ => rfl,
    foldl_frame objects (putOccurrence kind) fun _ _ => rfl,
    foldl_frame objects putFts fun _ _ => rfl, foldl_frame objects resetOccurrences fun _ _ => rfl,
    foldl_frame objects removeDerived fun _ _ => rfl]

theorem get?_objects_upsertAll (changed : List (ProviderKey × γ)) (k : ProviderKey) :
    (changed.foldl upsertObject cell).objects.get? k =
      ((changed.filter fun o => o.1 = k).getLast?.map Prod.snd).or (cell.objects.get? k) := by
  rw [foldl_view (fun (c : ScopeCell γ) k => c.objects.get? k) Prod.fst fun o _ => some o.2, foldl_write]
  intro c o k
  show (c.objects.put o.1 o.2).get? k = _
  rw [Keyed.get?_put]
  by_cases h : o.1 = k
  · rw [if_pos h, if_pos h.symm]
  · rw [if_neg h, if_neg (Ne.symm h)]

theorem get?_objects_tombstone (key k : ProviderKey) :
    (cell.tombstone key).objects.get? k = if key = k then none else cell.objects.get? k := by
  show (cell.objects.filterRows fun j _ => j ≠ key).get? k = _
  rw [Keyed.get?_filterRows]
  by_cases h : key = k
  · simp [h]
  · rw [if_neg h]
    cases cell.objects.get? k with
    | none => rfl
    | some a => simp [Ne.symm h]

theorem get?_objects_tombstoneAll (keys : List ProviderKey) (k : ProviderKey) :
    (keys.foldl tombstone cell).objects.get? k =
      if k ∈ keys then none else cell.objects.get? k :=
  foldl_clear (fun (c : ScopeCell γ) k => c.objects.get? k) none get?_objects_tombstone keys cell k

theorem tombstoneCounted_fst (keys : List ProviderKey) : (cell.tombstoneCounted keys).1 = keys.foldl tombstone cell := by
  unfold tombstoneCounted
  generalize 0 = n
  induction keys generalizing cell n with
  | nil => rfl
  | cons key keys ih => exact ih _ _

theorem mem_absent {cell : ScopeCell γ} {present : List ProviderKey} {k : ProviderKey} :
    k ∈ cell.absent present ↔ (cell.objects.get? k).isSome ∧ k ∉ present := by
  unfold absent
  rw [List.mem_filter, Keyed.mem_keys_iff, ← Option.isSome_iff_exists]
  simp

end ScopeCell

end Mail
end SyncEngine
