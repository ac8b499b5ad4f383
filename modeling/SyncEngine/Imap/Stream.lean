import SyncEngine.Imap.Fetch

/-!
# Streaming a mailbox

A backfill descends the UID space a group at a time, and sends a chunk for every so many messages of a group.  A
message goes out before its structure is known, as one without an attachment; one whose structure shows an attachment
goes out again.  A pass that started fresh reconciles with its last chunk.  Any other pass is pages, cut into chunks.
-/

namespace SyncEngine
namespace Imap

/-!
## Pages of a mailbox

A snapshot pages down the UID space.  A delta is one page: on a QRESYNC session what the server says
has moved, and otherwise the flags of everything held beside the arrivals, against which the pass
reconciles.
-/

open Mail

variable {δ : Type}

/-- What a pass is bound to. -/
structure Binding where
  session : Negotiated
  mailbox : String

def emptyPage (kind : SyncKind) (nextCursor : SyncState) (total : Option Nat) :
    SyncPage (Content δ) :=
  ⟨kind, [], [], [], [], none, nextCursor, total⟩

/-- The announced `UIDNEXT`, or one past the highest UID where the server does not say. -/
def effectiveUidNext (data : SelectData) : Pass δ Nat :=
  match data.uidNext with
  | some uidNext => pure uidNext
  | none =>
    if data.total = 0 then pure 1
    else do
      let uids ← Pass.highestUid
      return if uids = [] then 1 else min (uids.foldr max 0 + 1) (2 ^ 32 - 1)

/-! ## The delta of a QRESYNC session -/

/-- What moved below `syncedBelow`, the `UIDNEXT` of the cursor: messages held, and those gone. -/
def changedBelow (sinceModseq syncedBelow : Nat) : Pass δ (List (FetchRow δ) × List Nat) :=
  if 1 < syncedBelow then Pass.changedSince [.span 1 (syncedBelow - 1)] sinceModseq
  else pure ([], [])

/-- What is there from `syncedBelow` on, which is new. -/
def arrivalsFrom (on : Binding) (syncedBelow uidNext : Nat) : Pass δ (List (FetchRow δ)) :=
  if syncedBelow < uidNext then uidFetchMetadata on.session [.onward syncedBelow] else pure []

def deltaPage (on : Binding) (uidValidity : Nat) (nextCursor : SyncState)
    (sinceModseq syncedBelow uidNext : Nat) : Pass δ (SyncPage (Content δ)) := do
  let (stateRows, vanished) ← changedBelow sinceModseq syncedBelow
  let arrivals := newestFirst (← arrivalsFrom on syncedBelow uidNext)
  -- `n:*` names the highest message where nothing reaches `n`, and that one is already held
  let isArrival (row : FetchRow δ) : Bool := row.envelope.isSome && decide (syncedBelow ≤ row.uid)
  return {
    kind := .delta
    changed := (arrivals.filter isArrival).map fun row =>
      messageFromFetch row on.mailbox uidValidity
    patched := ((arrivals.filter fun row => !isArrival row) ++ stateRows).map fun row =>
      stateChange row on.mailbox uidValidity
    removed := vanished.map (messageKey on.mailbox uidValidity)
    present := []
    nextPage := none
    nextCursor := nextCursor
    total := none }

/-! ## The delta of any other session -/

/-- Whether the folder is as the cursor left it. -/
def unchanged (session : Negotiated) (prior : MailboxCursor) (uidNext : Nat)
    (highestModseq : Option Nat) : Bool :=
  session.xymHighestModseq && prior.reconciled && highestModseq.isSome &&
    decide (prior.highestModseq = highestModseq) && decide (prior.uidNext = uidNext)

/-- The last UID of a range, as 32-bit arithmetic has it. -/
def rangeEnd (start step : Nat) : Nat := ((start + step) % 2 ^ 32 + (2 ^ 32 - 1)) % 2 ^ 32

/-- `low..high` as ranges of a width, at most `fuel` of them. -/
def rangesUp (high step : Nat) : Nat → Nat → List UidSet
  | 0, _ => []
  | fuel + 1, start =>
    if high ≤ start then []
    else [.span start (min (rangeEnd start step) (high - 1))] ::
      rangesUp high step fuel (start + step)

def rangeSets (low high limit : Nat) : List UidSet :=
  if high ≤ low then []
  else
    let step := if 0 < limit ∧ limit < 2 ^ 32 then limit else high - low
    rangesUp high step (high - low) low

def listedSets (uids : List Nat) (limit : Nat) : List UidSet :=
  (chunks (if limit = 0 then uids.length else limit) uids).map uidSetSpec

def resyncSets (since : Option CalendarDate) (syncedBelow uidNext limit : Nat) :
    Pass δ (List UidSet × List UidSet) :=
  match since with
  | some floor => do
    let inWindow := ascending (← Pass.searchSince floor)
    let held := inWindow.filter fun uid => uid < syncedBelow
    let arriving := inWindow.filter fun uid => syncedBelow ≤ uid && uid < uidNext
    return (listedSets held limit, listedSets arriving limit)
  | none =>
    pure (rangeSets 1 syncedBelow limit, rangeSets syncedBelow uidNext limit)

def resyncPage (on : Binding) (uidValidity : Nat) (nextCursor : SyncState)
    (syncedBelow uidNext : Nat) (since : Option CalendarDate) (limit : Nat) :
    Pass δ (SyncPage (Content δ)) := do
  let (held, arriving) ← resyncSets since syncedBelow uidNext limit
  let rows ← Pass.collect Pass.fetchState held
  let stateRows := rows.filter fun row => row.uid < syncedBelow
  let arrivals ← Pass.collect (uidFetchMetadata on.session) arriving
  let arrivals := newestFirst (arrivals.filter fun row =>
    row.envelope.isSome && decide (syncedBelow ≤ row.uid))
  let changed := arrivals.map fun row => messageFromFetch row on.mailbox uidValidity
  return {
    kind := .snapshot
    changed := changed
    patched := stateRows.map fun row => stateChange row on.mailbox uidValidity
    removed := []
    present := (stateRows.map fun row => messageKey on.mailbox uidValidity row.uid) ++
      changed.map Message.key
    nextPage := none
    nextCursor := nextCursor
    total := some changed.length }

/-! ## A snapshot -/

/-- The rows of ranges going down from `windowHigh` until there are enough or the floor is reached,
and whether it was. -/
def collectDown (lowBound chunk : Nat) (target : Option Nat) :
    Nat → Nat → List (FetchRow δ) → Pass δ (List (FetchRow δ) × Bool)
  | 0, _, rows => pure (rows, true)
  | fuel + 1, windowHigh, rows => do
    let windowLow := max lowBound (windowHigh - (chunk - 1))
    let fetched ← Pass.fetch [.span windowLow windowHigh]
    let rows := rows ++ fetched
    if windowLow = lowBound then return (rows, true)
    else if target.any fun target => target ≤ rows.length then return (rows, false)
    else collectDown lowBound chunk target fuel (windowLow - 1) rows

/-- One page of a snapshot, from `high` down. -/
def snapshotFrom (on : Binding) (uidValidity : Nat) (nextCursor : SyncState) (lowBound high : Nat)
    (limit : Nat) (total : Option Nat) : Pass δ (SyncPage (Content δ)) := do
  let target := if limit = 0 then none else some limit
  let chunk := if limit = 0 then high - lowBound + 1 else min limit (2 ^ 32 - 1)
  let (rows, reachedFloor) ← collectDown lowBound chunk target (high + 1) high []
  -- an older overshoot is fetched again by the next page
  let rows := rows.insertionSort fun a b => a.uid ≤ b.uid
  let overshoot := target.any fun target => target < rows.length
  let kept ← settleAttachments on.session (rows.drop (rows.length - target.getD rows.length))
  let messages := kept.reverse.map fun row => messageFromFetch row on.mailbox uidValidity
  let nextPage :=
    if overshoot || !reachedFloor then
      (kept.head?.bind fun row => if row.uid = 0 then none else some (row.uid - 1)).filter
        fun boundary => lowBound ≤ boundary
    else none
  return {
    kind := .snapshot
    changed := messages
    patched := []
    removed := []
    present := messages.map Message.key
    nextPage := nextPage
    nextCursor := nextCursor
    total := total }

def snapshotPage (on : Binding) (uidValidity : Nat) (nextCursor : SyncState) (uidNext : Nat)
    (page : Option Nat) (limit : Nat) (total : Option Nat) : Pass δ (SyncPage (Content δ)) :=
  let newest := uidNext - 1
  let high := min (page.getD newest) newest
  if high < 1 then pure (emptyPage .snapshot nextCursor total)
  else snapshotFrom on uidValidity nextCursor 1 high limit total

def windowedSnapshotPage (on : Binding) (uidValidity : Nat) (nextCursor : SyncState)
    (inWindow chunk : List Nat) (total : Option Nat) : Pass δ (SyncPage (Content δ)) := do
  let rows := newestFirst (← uidFetchMetadata on.session (uidSetSpec (ascending chunk)))
  let messages := rows.map fun row => messageFromFetch row on.mailbox uidValidity
  let lowest := (ascending chunk).headD 0
  return {
    kind := .snapshot
    changed := messages
    patched := []
    removed := []
    present := messages.map Message.key
    nextPage := if inWindow.any fun uid => uid < lowest then some lowest else none
    nextCursor := nextCursor
    total := total }

/-- The UIDs of the next page: the newest below the boundary, up to the limit. -/
def windowedChunk (inWindow : List Nat) (page : Option Nat) (limit : Nat) : List Nat :=
  let pending := descending (inWindow.filter fun uid => page.all fun boundary => uid < boundary)
  pending.take (if limit = 0 then pending.length else limit)

def windowedSnapshot (on : Binding) (uidValidity : Nat) (nextCursor : SyncState)
    (page : Option Nat) (limit : Nat) (floor : CalendarDate) : Pass δ (SyncPage (Content δ)) := do
  let inWindow := ascending (← Pass.searchSince floor)
  let chunk := windowedChunk inWindow page limit
  if chunk.isEmpty then pure (emptyPage .snapshot nextCursor (some inWindow.length))
  else windowedSnapshotPage on uidValidity nextCursor inWindow chunk (some inWindow.length)

/-! ## A page -/

/-- One page of the open mailbox since a cursor. -/
def syncPageSelected (on : Binding) (data : SelectData) (uidNext : Nat)
    (prior : Option MailboxCursor) (page : Option Nat) (limit : Nat)
    (since : Option CalendarDate) : Pass δ (SyncPage (Content δ)) :=
  let limit := on.session.withinMessageLimit limit
  let qresync := on.session.qresync
  let nextCursor := MailboxCursor.encode
    { uidValidity := data.uidValidity
      uidNext := uidNext
      highestModseq := data.highestModseq
      backfillLow := none
      reconciled := true
      version := cursorVersion }
  let total := some data.total
  let snapshot :=
    match since with
    | some floor => windowedSnapshot on data.uidValidity nextCursor page limit floor
    | none => snapshotPage on data.uidValidity nextCursor uidNext page limit total
  match prior with
  | none => snapshot
  | some prior =>
    if prior.uidValidity ≠ data.uidValidity then snapshot
    else if qresync then
      match prior.highestModseq with
      -- a cursor without a baseline: one snapshot takes it
      | none => snapshot
      | some modseq => deltaPage on data.uidValidity nextCursor modseq prior.uidNext uidNext
    else if unchanged on.session prior uidNext data.highestModseq then
      pure (emptyPage .delta nextCursor none)
    else resyncPage on data.uidValidity nextCursor prior.uidNext uidNext since limit

end Imap

namespace Imap

open Mail

variable {δ : Type}

/-- A correction takes the place of a copy that has not gone out. -/
def replaceHeld (m : Message (Content δ)) : List (Message (Content δ)) → List (Message (Content δ))
  | [] => [m]
  | held :: rest => if held.key = m.key then m :: rest else held :: replaceHeld m rest

def sendFull (total : Option Nat) (chunkSize : Nat) (buf : List (Message (Content δ))) :
    Pass δ (List (Message (Content δ))) :=
  if chunkSize ≠ 0 ∧ chunkSize ≤ buf.length then do
    Pass.commit (.additiveHeld buf [] total)
    return []
  else pure buf

def scanMessages (total : Option Nat) (chunkSize : Nat)
    (place : List (Message (Content δ)) → Message (Content δ) → List (Message (Content δ))) :
    List (Message (Content δ)) → List (Message (Content δ)) → Pass δ (List (Message (Content δ)))
  | [], buf => pure buf
  | m :: ms, buf => do
    let buf ← sendFull total chunkSize (place buf m)
    scanMessages total chunkSize place ms buf

/-- The rows left open whose structure shows an attachment. -/
def corrections (session : Negotiated) (opened : List (FetchRow δ)) :
    Pass δ (List (FetchRow δ)) :=
  if opened.isEmpty then pure []
  else do
    let settled ← settleAcross session opened
    return settled.filter fun row => row.hasAttachment = some true

/-- The messages of one group that have not gone out when it ends, and the keys of all of them. -/
def scanGroup (on : Binding) (uidValidity : Nat) (total : Option Nat) (chunkSize : Nat)
    (set : UidSet) : Pass δ (List (Message (Content δ)) × List ProviderKey) := do
  let rows ← Pass.fetch set
  let messages := rows.map fun row => messageFromFetch row on.mailbox uidValidity
  let buf ← scanMessages total chunkSize (fun buf m => buf ++ [m]) messages []
  let corrected ← corrections on.session (rows.filter needsStructure)
  let buf ← scanMessages total chunkSize (fun buf m => replaceHeld m buf)
    (corrected.reverse.map fun row => messageFromFetch row on.mailbox uidValidity) buf
  return (buf, messages.map Message.key)

def backfillEnd (frontier : MailboxCursor) (isFresh : Bool) (total : Option Nat)
    (changed : List (Message (Content δ))) (present : List ProviderKey) : EmailChunk (Content δ) :=
  if isFresh then .reconcileLast changed present total frontier.encode
  else .additive changed [] total frontier.encode

/-- Streams groups, going on from the keys seen in those before. -/
def backfillScan (on : Binding) (uidValidity : Nat) (frontier : MailboxCursor)
    (total : Option Nat) (chunkSize : Nat) (isFresh : Bool) :
    List (UidSet × Nat) → List ProviderKey → Pass δ Unit
  | [], _ => pure ()
  | (set, groupLow) :: rest, present => do
    let (changed, keys) ← scanGroup on uidValidity total chunkSize set
    let present := present ++ keys
    if rest.isEmpty then Pass.commit (backfillEnd frontier isFresh total changed present)
    else do
      let checkpoint := { frontier with backfillLow := some groupLow, reconciled := false }
      Pass.commit (.additive changed [] total checkpoint.encode)
      backfillScan on uidValidity frontier total chunkSize isFresh rest present

/-- The descending groups of a backfill, and how many messages they hold where that is known. -/
def backfillGroups (high : Nat) (since : Option CalendarDate) (fetchBatch : Nat) :
    Pass δ (List (UidSet × Nat) × Option Nat) :=
  if high = 0 then pure ([], since.map fun _ => 0)
  else
    match since with
    | some floor => do
      let found ← Pass.searchSince floor
      let uids := descending (found.filter fun uid => uid ≤ high)
      return (listGroups uids fetchBatch, some uids.length)
    | none => pure (fullRangeGroups high 1 fetchBatch, none)

/-- Where a backfill starts, or goes on: below what it committed under the same UIDs.  Anything else
is a delta or a reset. -/
def backfillFrom (prior : Option MailboxCursor) (uidValidity uidNext : Nat) : Option Nat :=
  match prior with
  | none => some (uidNext - 1)
  | some p =>
    if p.uidValidity = uidValidity then p.backfillLow.map fun low => low - 1 else none

/-- The cursor a backfill completes with.  What changes during it is left to the delta after it, so
the values are those from when it first started. -/
def backfillFrontier (prior : Option MailboxCursor) (data : SelectData) (uidNext : Nat) :
    MailboxCursor where
  uidValidity := data.uidValidity
  uidNext := (prior.map MailboxCursor.uidNext).getD uidNext
  highestModseq := (prior.bind MailboxCursor.highestModseq).or data.highestModseq
  backfillLow := none
  reconciled := prior.isNone
  version := cursorVersion

def backfill (on : Binding) (data : SelectData) (uidNext : Nat) (prior : Option MailboxCursor)
    (since : Option CalendarDate) (high fetchBatch chunkSize : Nat) : Pass δ Unit := do
  let frontier := backfillFrontier prior data uidNext
  let (groups, windowedTotal) ← backfillGroups high since fetchBatch
  let total := windowedTotal.or (some data.total)
  if groups.isEmpty then Pass.commit (backfillEnd frontier prior.isNone total [] [])
  else backfillScan on data.uidValidity frontier total chunkSize prior.isNone groups []

def commitAll : List (EmailChunk (Content δ)) → Pass δ Unit
  | [] => pure ()
  | chunk :: chunks => do
    Pass.commit chunk
    commitAll chunks

def endOfPages (mode : PassMode) (total : Option Nat) (cursor : SyncState) :
    EmailChunk (Content δ) :=
  match mode with
  | .additive => .additive [] [] total cursor
  | .reconcile => .reconcileLast [] [] total cursor

/-- Streams pages, at most `fuel` of them.  The mode is decided by the first. -/
def drainPages (on : Binding) (data : SelectData) (uidNext : Nat) (prior : Option MailboxCursor)
    (since : Option CalendarDate) (fetchBatch chunkSize : Nat) :
    Nat → Option PassMode → Option Nat → Option Nat → Pass δ Unit
  | 0, _, _, _ => pure ()
  | fuel + 1, mode, total, token => do
    let page ← syncPageSelected on data uidNext prior token fetchBatch since
    let total := total.or page.total
    let mode := mode.getD page.kind.mode
    commitAll (splitPage mode page.changed page.patched page.removed page.present total chunkSize)
    match page.nextPage with
    | none => Pass.commit (endOfPages mode total page.nextCursor)
    | some token => drainPages on data uidNext prior since fetchBatch chunkSize fuel mode total token

/-- Every boundary is below the one before, so a pass has no more pages than there are UIDs. -/
def streamPages (on : Binding) (data : SelectData) (uidNext : Nat) (prior : Option MailboxCursor)
    (since : Option CalendarDate) (fetchBatch chunkSize : Nat) : Pass δ Unit :=
  drainPages on data uidNext prior since fetchBatch chunkSize (uidNext + 1) none none none

/-- One pass over a mailbox. -/
def streamEmail (on : Binding) (cursor : Option SyncState) (window : SyncWindow)
    (fetchBatch chunkSize : Nat) : Pass δ Unit := do
  let fetchBatch := on.session.withinMessageLimit fetchBatch
  let data ← Pass.select on.session.qresync
  let uidNext ← effectiveUidNext data
  let prior := cursor.bind MailboxCursor.current
  match backfillFrom prior data.uidValidity uidNext with
  | some high => backfill on data uidNext prior window.since high fetchBatch chunkSize
  | none => streamPages on data uidNext prior window.since fetchBatch chunkSize

end Imap
end SyncEngine
