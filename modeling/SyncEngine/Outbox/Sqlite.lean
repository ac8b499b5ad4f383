import SyncEngine.Outbox.Mem
import SyncEngine.Outbox.Columns

/-!
# The SQLite outbox

The outbox half of the durable store.  An op is a row of `pending_op`, and its payload a row of a second table under
the same id, dropped by a trigger once the op reaches a state nothing dispatches it from.  Each verb is one transaction.

A row keeps the columns the outbox reads.  An instant stands for the text its column holds, and every load parses that
text anew.  The instant an op settled is a column of the keyword overlay and is left out.
-/

namespace SyncEngine
namespace Outbox

/-- One row of `pending_op`. -/
structure OpRow where
  account : AccountId
  kind : Option PendingOpKind
  idempotencyKey : IdempotencyKey
  resourceKey : ResourceKey
  dependsOn : List PendingOpId
  state : PendingOpState
  token : Nat
  leaseExpiry : Option UtcDateTime
  attempts : Nat
  nextAttemptAt : Option UtcDateTime
  failureClass : Option FailureClass
  detail : Option String
  handedOver : Option Nat
  keywordEdit : Option KeywordEdit
deriving DecidableEq

/-- What a value that does not fit the column it is bound to answers. -/
def outOfRange : StoreError :=
  .backend "out of range integral type conversion attempted"

/-- Narrows an op id to the signed rowid it maps to. -/
def opIdToI64 (id : PendingOpId) : Result Nat :=
  if id < 9223372036854775808 then .ok id else .error outOfRange

namespace OpRow

def recorded (r : OpRow) (outcome : PendingOutcome) (now : UtcDateTime) : Result Recorded :=
  recordOutcome r.kind r.attempts outcome now

def interrupted (r : OpRow) : PendingOutcome :=
  match r.kind with
  | some kind => interruptedOutcome kind r.handedOver.isSome
  | none => .failed .retryable none

def isDead (r : OpRow) (now : UtcDateTime) : Bool :=
  decide (r.state = .inFlight) && !isLive r.leaseExpiry now

def isDue (r : OpRow) (now : UtcDateTime) : Bool :=
  r.nextAttemptAt.all fun due => decide (due ≤ now)

/-- A row with no kind is never runnable: nothing says what its payload is. -/
def isRunnable (r : OpRow) (now : UtcDateTime) : Bool :=
  r.kind.isSome && decide (r.state = .pending) && r.isDue now

def view (r : OpRow) (now : UtcDateTime) : Result Recorded :=
  if r.isDead now then r.recorded r.interrupted now
  else .ok { state := r.state, attempts := r.attempts, nextAttemptAt := r.nextAttemptAt,
             failureClass := r.failureClass, detail := r.detail,
             keepsHandOver := r.handedOver.isSome }

/-- Whether something may still dispatch the op, as the trigger and the queue read spell it. -/
def outstanding (r : OpRow) : Bool :=
  decide (r.state = .pending) || decide (r.state = .inFlight) ||
    decide (r.state = .needsConfirmation) ||
    (decide (r.state = .failed) && decide (r.kind = some .mailSubmit))

end OpRow

structure Sqlite where
  pendingOp : Table OpRow
  payload : Table String

namespace Sqlite

def new : Sqlite := ⟨Table.empty, Table.empty⟩

def update (db : Sqlite) (id : Nat) (f : OpRow → OpRow) : Sqlite :=
  { db with pendingOp := db.pendingOp.modify id f }

/-- An update that names the state column, with the trigger it fires: the payload goes once
the row is no longer outstanding. -/
def updateState (db : Sqlite) (id : Nat) (f : OpRow → OpRow) : Sqlite :=
  let pendingOp := db.pendingOp.modify id f
  { pendingOp
    payload :=
      if (pendingOp.get? id).any fun r => !r.outstanding then
        db.payload.filterRows fun k _ => decide (k ≠ id)
      else db.payload }

@[simp] theorem update_pendingOp (db : Sqlite) (id : Nat) (f : OpRow → OpRow) :
    (db.update id f).pendingOp = db.pendingOp.modify id f := rfl

@[simp] theorem update_payload (db : Sqlite) (id : Nat) (f : OpRow → OpRow) : (db.update id f).payload = db.payload := rfl

@[simp] theorem updateState_pendingOp (db : Sqlite) (id : Nat) (f : OpRow → OpRow) :
    (db.updateState id f).pendingOp = db.pendingOp.modify id f := rfl

/-! ## Loading -/

def parseOpRow (r : OpRow) : Result OpRow :=
  match parseOptInstant r.leaseExpiry with
  | .error e => .error e
  | .ok leaseExpiry =>
    (parseOptInstant r.nextAttemptAt).map fun nextAttemptAt => { r with leaseExpiry, nextAttemptAt }

def parseOpRows : List (Nat × OpRow) → Result (List (Nat × OpRow))
  | [] => .ok []
  | (id, r) :: rest =>
    match parseOpRow r with
    | .error e => .error e
    | .ok op => (parseOpRows rest).map fun ops => (id, op) :: ops

/-- The row of one op, scoped to `account`. -/
def rowOne (db : Sqlite) (account : AccountId) (id : Nat) : Option OpRow :=
  (db.pendingOp.get? id).filter fun r => decide (r.account = account)

def loadOneOp (db : Sqlite) (account : AccountId) (id : Nat) : Result (Option OpRow) :=
  match db.rowOne account id with
  | none => .ok none
  | some r => (parseOpRow r).map some

def accountRows (db : Sqlite) (account : AccountId) : List (Nat × OpRow) :=
  db.pendingOp.rows.filter fun r => decide (r.2.account = account)

def loadAccountOps (db : Sqlite) (account : AccountId) : Result (List (Nat × OpRow)) :=
  parseOpRows (db.accountRows account)

/-- Every row in flight, of `account` or of every account, in id order. -/
def inFlightRows (db : Sqlite) (account : Option AccountId) : List (Nat × OpRow) :=
  db.pendingOp.rows.filter fun r =>
    decide (r.2.state = .inFlight) && account.all fun a => decide (r.2.account = a)

def loadInFlightOps (db : Sqlite) (account : Option AccountId) : Result (List (Nat × OpRow)) :=
  parseOpRows (db.inFlightRows account)

def transact {α : Type} (db : Sqlite) (body : Result (Sqlite × α)) : Sqlite × Result α :=
  match body with
  | .ok (db', a) => (db', .ok a)
  | .error e => (db, .error e)

/-! ## Recording and recovering -/

/-- Records `outcome` on `op`, a row as it was loaded. -/
def record (db : Sqlite) (id : Nat) (op : OpRow) (now : UtcDateTime) (outcome : PendingOutcome) :
    Result Sqlite :=
  (op.recorded outcome now).map fun r =>
    db.updateState id fun row =>
      { row with
        state := r.state
        leaseExpiry := none
        attempts := r.attempts
        nextAttemptAt := r.nextAttemptAt
        failureClass := r.failureClass
        detail := r.detail
        handedOver := if r.keepsHandOver then row.handedOver else none }

/-- Recovers `op`'s attempt and fences its worker out. -/
def recover (db : Sqlite) (id : Nat) (op : OpRow) (now : UtcDateTime) : Result Sqlite :=
  (db.update id fun row => { row with token := row.token + 1 }).record id op now op.interrupted

def recoverAll (now : UtcDateTime) : List (Nat × OpRow) → Sqlite → Result Sqlite
  | [], db => .ok db
  | (id, op) :: rest, db =>
    match db.recover id op now with
    | .error e => .error e
    | .ok db => recoverAll now rest db

/-- Recovers every attempt of `account` whose lease has lapsed. -/
def recoverDead (db : Sqlite) (account : AccountId) (now : UtcDateTime) : Result Sqlite :=
  match db.loadInFlightOps (some account) with
  | .error e => .error e
  | .ok ops => recoverAll now (ops.filter fun r => r.2.isDead now) db

def recoverInterrupted (db : Sqlite) (now : UtcDateTime) : Sqlite × Result Nat :=
  match db.loadInFlightOps none with
  | .error e => (db, .error e)
  | .ok ops => db.transact ((recoverAll now ops db).map fun db => (db, ops.length))

/-! ## Enqueue and claim -/

def existing (db : Sqlite) (account : AccountId) (key : IdempotencyKey) : Option Nat :=
  (db.pendingOp.rows.find? fun r =>
    decide (r.2.account = account) && decide (r.2.idempotencyKey = key)).map Prod.fst

/-- A row as it is inserted. -/
def queuedRow (account : AccountId) (op : PendingOp) : OpRow where
  account := account
  kind := some op.kind
  idempotencyKey := op.idempotencyKey
  resourceKey := op.resourceKey
  dependsOn := op.dependsOn
  state := .pending
  token := 0
  leaseExpiry := none
  attempts := 0
  nextAttemptAt := none
  failureClass := none
  detail := none
  handedOver := none
  keywordEdit := op.keywordEdit

def enqueue (db : Sqlite) (account : AccountId) (op : PendingOp) : Sqlite × Result PendingOpId :=
  match db.existing account op.idempotencyKey with
  | some id => (db, .ok id)
  | none =>
    let id := db.pendingOp.nextRowid
    ({ pendingOp := db.pendingOp.insert id (queuedRow account op)
       payload := db.payload.insert id op.payload }, .ok id)

/-- Rebuilds the envelope to hand back in a lease.  The claim has refused a row with no kind. -/
def toPendingOp (db : Sqlite) (id : Nat) (r : OpRow) (kind : PendingOpKind) : Result PendingOp :=
  (parsePayload id (db.payload.get? id)).map fun payload =>
    { idempotencyKey := r.idempotencyKey, kind, dependsOn := r.dependsOn,
      resourceKey := r.resourceKey, payload, keywordEdit := r.keywordEdit }

/-- Leases the loaded row until `expiry`. -/
def leaseRow (db : Sqlite) (id : Nat) (op : OpRow) (expiry : UtcDateTime) : Sqlite :=
  db.updateState id fun row =>
    { row with token := op.token + 1, state := .inFlight, leaseExpiry := some expiry }

/-- Whether every dependency of a loaded row succeeded, among the account's loaded rows. -/
def dependenciesLoaded (ops : List (Nat × OpRow)) (dependsOn : List PendingOpId) : Bool :=
  dependsOn.all fun dep =>
    match opIdToI64 dep with
    | .ok id => (ops.lookup id).any fun r => r.state.isSuccess
    | .error _ => false

def claimLoop (account : AccountId) (owner : WorkerId) (expiry now : UtcDateTime) (limit : Nat)
    (ops : List (Nat × OpRow)) (busy : List ResourceKey) :
    List (Nat × OpRow) → Sqlite → List ResourceKey → List LeasedPendingOp →
      Result (Sqlite × List LeasedPendingOp)
  | [], db, _, result => .ok (db, result)
  | (id, op) :: rest, db, newlyLeased, result =>
    if limit ≤ result.length then .ok (db, result)
    else if !op.isRunnable now then
      claimLoop account owner expiry now limit ops busy rest db newlyLeased result
    else if !dependenciesLoaded ops op.dependsOn then
      claimLoop account owner expiry now limit ops busy rest db newlyLeased result
    else if busy.contains op.resourceKey || newlyLeased.contains op.resourceKey then
      claimLoop account owner expiry now limit ops busy rest db newlyLeased result
    else
      match op.kind with
      | none => claimLoop account owner expiry now limit ops busy rest db newlyLeased result
      | some kind =>
        let db := db.leaseRow id op expiry
        match db.toPendingOp id op kind with
        | .error e => .error e
        | .ok envelope =>
          claimLoop account owner expiry now limit ops busy rest db (op.resourceKey :: newlyLeased)
            (result ++ [⟨id, envelope, ⟨account, id, op.token + 1, owner, expiry⟩⟩])

def claim (db : Sqlite) (account : AccountId) (req : LeaseRequest) (limit : Nat)
    (now : UtcDateTime) : Sqlite × Result (List LeasedPendingOp) :=
  match expiryAfter now req.ttl with
  | .error e => (db, .error e)
  | .ok expiry =>
    match db.recoverDead account now with
    | .error e => (db, .error e)
    | .ok ready =>
      match ready.loadAccountOps account with
      | .error e => (db, .error e)
      | .ok ops =>
        let busy :=
          (ops.filter fun r => decide (r.2.state = .inFlight)).map fun r => r.2.resourceKey
        db.transact (claimLoop account req.owner expiry now limit ops busy ops ready [] [])

def dependenciesMet (db : Sqlite) (account : AccountId) : List PendingOpId → Result Bool
  | [] => .ok true
  | dep :: rest =>
    match opIdToI64 dep with
    | .error e => .error e
    | .ok id =>
      if (db.rowOne account id).any fun r => r.state.isSuccess then
        dependenciesMet db account rest
      else .ok false

def anyLive (now : UtcDateTime) : List (Option UtcDateTime) → Result Bool
  | [] => .ok false
  | expiry :: rest =>
    match parseOptInstant expiry with
    | .error e => .error e
    | .ok expiry => if isLive expiry now then .ok true else anyLive now rest

/-- Whether a different op of this account holds `resource` under a live lease. -/
def resourceHeldElsewhere (db : Sqlite) (account : AccountId) (resource : ResourceKey) (id : Nat)
    (now : UtcDateTime) : Result Bool :=
  anyLive now <| (db.pendingOp.rows.filter fun r =>
    decide (r.2.account = account) && decide (r.2.resourceKey = resource) && decide (r.1 ≠ id) &&
      decide (r.2.state = .inFlight)).map fun r => r.2.leaseExpiry

def stateRefusal (now : UtcDateTime) (op : OpRow) : Option ClaimRejection :=
  match op.state with
  | .pending => if op.isDue now then none else some .backoff
  | .inFlight => some .busy
  | .succeeded | .failed | .cancelled | .needsConfirmation => some .settled

def claimOneIn (db : Sqlite) (account : AccountId) (id : Nat) (owner : WorkerId)
    (now expiry : UtcDateTime) : Result (Sqlite × PendingOpClaim) :=
  match db.recoverDead account now with
  | .error e => .error e
  | .ok db =>
    match db.loadOneOp account id with
    | .error e => .error e
    | .ok none => .ok (db, .refused .unknown)
    | .ok (some op) =>
      match op.kind with
      | none => .ok (db, .refused .unknown)
      | some kind =>
        match stateRefusal now op with
        | some refusal => .ok (db, .refused refusal)
        | none =>
          match db.dependenciesMet account op.dependsOn with
          | .error e => .error e
          | .ok false => .ok (db, .refused .dependencyUnmet)
          | .ok true =>
            match db.resourceHeldElsewhere account op.resourceKey id now with
            | .error e => .error e
            | .ok true => .ok (db, .refused .busy)
            | .ok false =>
              let db := db.leaseRow id op expiry
              (db.toPendingOp id op kind).map fun envelope =>
                (db, .leased ⟨id, envelope, ⟨account, id, op.token + 1, owner, expiry⟩⟩)

def claimOne (db : Sqlite) (account : AccountId) (id : PendingOpId) (req : LeaseRequest)
    (now : UtcDateTime) : Sqlite × Result PendingOpClaim :=
  match expiryAfter now req.ttl with
  | .error e => (db, .error e)
  | .ok expiry =>
    match opIdToI64 id with
    | .error e => (db, .error e)
    | .ok id => db.transact (db.claimOneIn account id req.owner now expiry)

/-! ## The worker's verbs -/

def admits (op : OpRow) (lease : OpLease) : Bool :=
  decide (op.token = lease.token) ||
    (decide (op.state = .needsConfirmation) && decide (op.handedOver = some lease.token))

def mark (db : Sqlite) (lease : OpLease) (outcome : PendingOutcome) (now : UtcDateTime) :
    Sqlite × Result Unit :=
  match opIdToI64 lease.op with
  | .error e => (db, .error e)
  | .ok id =>
    match db.loadOneOp lease.account id with
    | .error e => (db, .error e)
    | .ok none => (db, .error .staleLease)
    | .ok (some op) =>
      if admits op lease then
        db.transact ((db.record id op now outcome).map fun db => (db, ()))
      else (db, .error .staleLease)

/-- The row an update gated on the lease matches. -/
def held (db : Sqlite) (lease : OpLease) (id : Nat) : Option OpRow :=
  (db.pendingOp.get? id).filter fun r =>
    decide (r.account = lease.account) && decide (r.token = lease.token) &&
      decide (r.state = .inFlight)

def handOver (db : Sqlite) (lease : OpLease) : Sqlite × Result Unit :=
  match opIdToI64 lease.op with
  | .error e => (db, .error e)
  | .ok id =>
    match db.held lease id with
    | none => (db, .error .staleLease)
    | some _ => (db.update id fun row => { row with handedOver := some lease.token }, .ok ())

def renew (db : Sqlite) (lease : OpLease) (ttl : Nat) (now : UtcDateTime) : Sqlite × Result Unit :=
  match expiryAfter now ttl with
  | .error e => (db, .error e)
  | .ok expiry =>
    match opIdToI64 lease.op with
    | .error e => (db, .error e)
    | .ok id =>
      match db.held lease id with
      | none => (db, .error .staleLease)
      | some _ => (db.update id fun row => { row with leaseExpiry := some expiry }, .ok ())

/-! ## The host's verbs -/

def refusal (op : OpRow) : Option OpRejection :=
  match op.state with
  | .pending => none
  | .inFlight => some .inFlight
  | .needsConfirmation => some .awaitingConfirmation
  | .failed => if staysListed op.kind op.state then none else some .settled
  | .succeeded | .cancelled => some .settled

def rearm (db : Sqlite) (id : Nat) : Sqlite :=
  db.updateState id fun row =>
    { row with
      state := .pending
      token := row.token + 1
      leaseExpiry := none
      nextAttemptAt := none
      handedOver := none
      detail := none }

/-- Loads `id` with its dead attempt recovered, then lets `act` decide.  `none` from `act`
means it took effect. -/
def hostVerb (db : Sqlite) (account : AccountId) (id : PendingOpId) (now : UtcDateTime)
    (act : Sqlite → Nat → OpRow → Sqlite × Option OpRejection) :
    Sqlite × Result (Option OpRejection) :=
  match opIdToI64 id with
  | .error e => (db, .error e)
  | .ok id =>
    match db.loadOneOp account id with
    | .error e => (db, .error e)
    | .ok none => (db, .ok (some .unknown))
    | .ok (some op) =>
      if op.isDead now then
        match db.recover id op now with
        | .error e => (db, .error e)
        | .ok recovered =>
          match recovered.loadOneOp account id with
          | .error e => (db, .error e)
          -- the op was just loaded, so the source asserts that it is there
          | .ok none => (db, .ok (some .unknown))
          | .ok (some op) => ((act recovered id op).1, .ok (act recovered id op).2)
      else ((act db id op).1, .ok (act db id op).2)

def cancelAct (db : Sqlite) (id : Nat) (op : OpRow) : Sqlite × Option OpRejection :=
  match refusal op with
  | some refused => (db, some refused)
  | none =>
    (db.updateState id fun row =>
      { row with state := .cancelled, token := row.token + 1, leaseExpiry := none,
                 nextAttemptAt := none }, none)

def retryNowAct (db : Sqlite) (id : Nat) (op : OpRow) : Sqlite × Option OpRejection :=
  match refusal op with
  | some refused => (db, some refused)
  | none =>
    if op.state = .failed then (db.rearm id, none)
    else (db.update id fun row => { row with nextAttemptAt := none }, none)

def confirmAct (confirmation : Confirmation) (db : Sqlite) (id : Nat) (op : OpRow) :
    Sqlite × Option OpRejection :=
  match op.state with
  | .needsConfirmation =>
    match confirmation with
    | .delivered =>
      (db.updateState id fun row =>
        { row with state := .succeeded, token := row.token + 1, handedOver := none }, none)
    | .notDelivered => (db.rearm id, none)
  | .inFlight => (db, some .inFlight)
  | _ => (db, some .notAwaitingConfirmation)

def cancel (db : Sqlite) (account : AccountId) (id : PendingOpId) (now : UtcDateTime) :
    Sqlite × Result (Option OpRejection) :=
  db.hostVerb account id now cancelAct

def retryNow (db : Sqlite) (account : AccountId) (id : PendingOpId) (now : UtcDateTime) :
    Sqlite × Result (Option OpRejection) :=
  db.hostVerb account id now retryNowAct

def confirm (db : Sqlite) (account : AccountId) (id : PendingOpId) (confirmation : Confirmation)
    (now : UtcDateTime) : Sqlite × Result (Option OpRejection) :=
  db.hostVerb account id now (confirmAct confirmation)

/-! ## An applied page and the queue read -/

def reconcileOp (db : Sqlite) (rec : ReconciledOp) (now : UtcDateTime) : Result (Sqlite × Bool) :=
  match opIdToI64 rec.op with
  | .error e => .error e
  | .ok id =>
    let recovered :=
      match (db.pendingOp.get? id).filter fun r => decide (r.state = .inFlight) with
      | some r => db.recoverDead r.account now
      | none => .ok db
    match recovered with
    | .error e => .error e
    | .ok db =>
      if (db.pendingOp.get? id).any fun r => decide (r.state = rec.expected) then
        .ok (db.updateState id fun row => { row with state := .succeeded, leaseExpiry := none },
          true)
      else .ok (db, false)

def reconcileLoop (now : UtcDateTime) : List ReconciledOp → Sqlite → Nat → Result (Sqlite × Nat)
  | [], db, reconciled => .ok (db, reconciled)
  | rec :: rest, db, reconciled =>
    match db.reconcileOp rec now with
    | .error e => .error e
    | .ok (db, true) => reconcileLoop now rest db (reconciled + 1)
    | .ok (db, false) => reconcileLoop now rest db reconciled

/-- What an accepted page does to the outbox. -/
def reconcile (db : Sqlite) (recs : List ReconciledOp) (now : UtcDateTime) : Sqlite × Result Nat :=
  db.transact (reconcileLoop now recs db 0)

def listRows (payload : Table String) (now : UtcDateTime) :
    List (Nat × OpRow) → Result (List PendingOpRow)
  | [] => .ok []
  | (id, row) :: rest =>
    match parseOpRow row with
    | .error e => .error e
    | .ok op =>
      match op.view now with
      | .error e => .error e
      | .ok view =>
        if staysListed op.kind view.state then
          match parsePayload id (payload.get? id) with
          | .error e => .error e
          | .ok text =>
            (listRows payload now rest).map fun rows =>
              { id, kind := op.kind, idempotencyKey := op.idempotencyKey,
                resourceKey := op.resourceKey, payload := text, state := view.state,
                attempts := view.attempts, nextAttemptAt := view.nextAttemptAt,
                failureClass := view.failureClass, detail := view.detail } :: rows
        else listRows payload now rest

def list (db : Sqlite) (account : AccountId) (now : UtcDateTime) : Result (List PendingOpRow) :=
  listRows db.payload now
    (db.pendingOp.rows.filter fun r => decide (r.2.account = account) && r.2.outstanding)

/-- One store call. -/
def run : Behaviour Sqlite := fun db call now =>
  match call with
  | .enqueue account op => ((db.enqueue account op).1, .enqueued (db.enqueue account op).2)
  | .claimOps account req limit =>
    ((db.claim account req limit now).1, .leased (db.claim account req limit now).2)
  | .claimOne account id req =>
    ((db.claimOne account id req now).1, .claimed (db.claimOne account id req now).2)
  | .handOver lease => ((db.handOver lease).1, .done (db.handOver lease).2)
  | .renew lease ttl => ((db.renew lease ttl now).1, .done (db.renew lease ttl now).2)
  | .mark lease outcome => ((db.mark lease outcome now).1, .done (db.mark lease outcome now).2)
  | .recoverInterrupted =>
    ((db.recoverInterrupted now).1, .counted (db.recoverInterrupted now).2)
  | .cancel account id => ((db.cancel account id now).1, .verdict (db.cancel account id now).2)
  | .retryNow account id =>
    ((db.retryNow account id now).1, .verdict (db.retryNow account id now).2)
  | .confirm account id confirmation =>
    ((db.confirm account id confirmation now).1,
      .verdict (db.confirm account id confirmation now).2)
  | .reconcile recs => ((db.reconcile recs now).1, .counted (db.reconcile recs now).2)
  | .list account => (db, .listed (db.list account now))

end Sqlite
end Outbox
end SyncEngine
