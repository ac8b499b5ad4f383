import SyncEngine.Outbox.Op

/-!
# The in-memory outbox

The outbox half of the in-memory reference store.  A verb returns the new outbox beside its result, because one that
fails part of the way through its loop leaves the rows before the failure rewritten.  `sweep` is the outbox half of the
pass that applies settled keyword changes: it stamps each op that has reached a terminal state.
-/

namespace SyncEngine

/-!
## What recording an outcome does to an op

An outcome is recorded from three places: a worker reporting its own attempt, the
recovery of an attempt whose worker is gone, and the queue read, which shows a
dead attempt as its recovery will leave it.  All three go through
`recordOutcome`.
-/

def maxAttempts : Nat := 8

/-- The first retry delay.  Each further attempt doubles it up to `retryCap`. -/
def retryBase : Nat := 30 * second

def retryCap : Nat := 1800 * second

def u32Max : Nat := 4294967295

def u64Max : Nat := 18446744073709551615

/-- When a retryable failure may be attempted again, after `attempts` attempts. -/
def retryDelay (attempts : Nat) (hint : Option Duration) : Nat :=
  match hint with
  | some hint =>
    -- both operations saturate at sixty-four bits
    let seconds := min (min (hint.days * 86400) u64Max + hint.seconds) u64Max
    seconds * second + hint.nanoseconds
  | none => min (retryBase * 2 ^ min (attempts - 1) 16) retryCap

/-- Where an op stands once an outcome is recorded on it. -/
structure Recorded where
  state : PendingOpState
  attempts : Nat
  nextAttemptAt : Option UtcDateTime
  failureClass : Option FailureClass
  detail : Option String
  keepsHandOver : Bool
deriving DecidableEq

/-- Whether a retryable failure of `kind` settles once its attempts are spent. -/
def settlesOnAttempts (kind : Option PendingOpKind) : Bool :=
  kind != some .mailSubmit

/-- Whether a failure of `cls` parks the op for another attempt. -/
def parks (kind : Option PendingOpKind) (attempts : Nat) (cls : FailureClass) : Bool :=
  cls.isRetryable && (!settlesOnAttempts kind || decide (attempts < maxAttempts))

/-- Records `outcome` on an op that had made `attemptsBefore` attempts, at `now`. -/
def recordOutcome (kind : Option PendingOpKind) (attemptsBefore : Nat) (outcome : PendingOutcome)
    (now : UtcDateTime) : Result Recorded :=
  let attempts := min (attemptsBefore + 1) u32Max
  match outcome with
  | .succeeded _ =>
    .ok { state := .succeeded, attempts, nextAttemptAt := none, failureClass := none,
          detail := none, keepsHandOver := false }
  | .failed cls retryAfter =>
    if parks kind attempts cls then
      match now.checkedAdd (retryDelay attempts retryAfter) with
      | some due =>
        .ok { state := .pending, attempts, nextAttemptAt := some due, failureClass := some cls,
              detail := none, keepsHandOver := false }
      | none => .error (.backend "retry delay overflow")
    else
      .ok { state := .failed, attempts, nextAttemptAt := none, failureClass := some cls,
            detail := none, keepsHandOver := false }
  | .needsConfirmation detail =>
    .ok { state := .needsConfirmation, attempts, nextAttemptAt := none, failureClass := none,
          detail := some detail, keepsHandOver := true }

/-- What an attempt whose worker is gone is recorded as. -/
def interruptedOutcome (kind : PendingOpKind) (handedOver : Bool) : PendingOutcome :=
  match kind, handedOver with
  | .mailSubmit, true =>
    .needsConfirmation ("the attempt ended after the message was handed to the server, so " ++
      "whether it was delivered is unknown")
  | .mailSubmit, false => .failed .retryable (some Duration.zero)
  | _, _ => .failed .retryable none

/-- Whether the queue read lists an op of `kind` in `state`. -/
def staysListed (kind : Option PendingOpKind) (state : PendingOpState) : Bool :=
  !state.isTerminal || (decide (state = .failed) && decide (kind = some .mailSubmit))

/-- Where an outcome leaves an op, and whether it keeps the hand-over record.  A failure is
the only one that makes the op claimable again. -/
def Lands (outcome : PendingOutcome) (state : PendingOpState) (keeps : Bool) : Prop :=
  match outcome with
  | .succeeded _ => state = .succeeded ∧ keeps = false
  | .failed _ _ => (state = .pending ∨ state = .failed) ∧ keeps = false
  | .needsConfirmation _ => state = .needsConfirmation ∧ keeps = true

theorem recordOutcome_lands {kind : Option PendingOpKind} {attempts : Nat}
    {outcome : PendingOutcome} {now : UtcDateTime} {r : Recorded}
    (h : recordOutcome kind attempts outcome now = .ok r) :
    Lands outcome r.state r.keepsHandOver := by
  cases outcome with
  | succeeded key =>
    simp only [recordOutcome, Except.ok.injEq] at h
    subst h
    exact ⟨rfl, rfl⟩
  | failed cls retryAfter =>
    simp only [recordOutcome] at h
    split at h
    · split at h
      · simp only [Except.ok.injEq] at h
        subst h
        exact ⟨Or.inl rfl, rfl⟩
      · simp at h
    · simp only [Except.ok.injEq] at h
      subst h
      exact ⟨Or.inr rfl, rfl⟩
  | needsConfirmation detail =>
    simp only [recordOutcome, Except.ok.injEq] at h
    subst h
    exact ⟨rfl, rfl⟩

theorem Lands.state_ne {outcome : PendingOutcome} {state : PendingOpState} {keeps : Bool}
    (h : Lands outcome state keeps) : state ≠ .inFlight ∧ state ≠ .cancelled := by
  cases outcome with
  | succeeded key => simp [h.1]
  | failed cls retryAfter => rcases h.1 with hs | hs <;> simp [hs]
  | needsConfirmation detail => simp [h.1]

theorem interruptedOutcome_of_ne {kind : PendingOpKind} (hk : kind ≠ .mailSubmit) (b : Bool) :
    interruptedOutcome kind b = .failed .retryable none := by
  cases kind <;> first | exact absurd rfl hk | (cases b <;> rfl)

namespace Outbox

/-- Per-op outbox state. -/
structure OpCell where
  account : AccountId
  op : PendingOp
  state : PendingOpState
  token : Nat
  leaseExpiry : Option UtcDateTime
  attempts : Nat
  nextAttemptAt : Option UtcDateTime
  failureClass : Option FailureClass
  detail : Option String
  handedOver : Option Nat
  settledAt : Option UtcDateTime
deriving DecidableEq

namespace OpCell

def queued (account : AccountId) (op : PendingOp) : OpCell where
  account := account
  op := op
  state := .pending
  token := 0
  leaseExpiry := none
  attempts := 0
  nextAttemptAt := none
  failureClass := none
  detail := none
  handedOver := none
  settledAt := none

/-- Where `outcome` would leave this op, without changing it. -/
def recorded (c : OpCell) (outcome : PendingOutcome) (now : UtcDateTime) : Result Recorded :=
  recordOutcome (some c.op.kind) c.attempts outcome now

/-- Records `outcome`, releasing the lease and counting the attempt. -/
def record (c : OpCell) (outcome : PendingOutcome) (now : UtcDateTime) : Result OpCell :=
  (c.recorded outcome now).map fun r =>
    { c with
      leaseExpiry := none
      state := r.state
      attempts := r.attempts
      nextAttemptAt := r.nextAttemptAt
      failureClass := r.failureClass
      detail := r.detail
      handedOver := if r.keepsHandOver then c.handedOver else none }

def interrupted (c : OpCell) : PendingOutcome :=
  interruptedOutcome c.op.kind c.handedOver.isSome

/-- Whether this op's attempt is gone: in flight under a lease that has lapsed. -/
def isDead (c : OpCell) (now : UtcDateTime) : Bool :=
  decide (c.state = .inFlight) && !isLive c.leaseExpiry now

/-- This op as a read shows it: a dead attempt as its recovery will leave it. -/
def view (c : OpCell) (now : UtcDateTime) : Result Recorded :=
  if c.isDead now then c.recorded c.interrupted now
  else .ok { state := c.state, attempts := c.attempts, nextAttemptAt := c.nextAttemptAt,
             failureClass := c.failureClass, detail := c.detail,
             keepsHandOver := c.handedOver.isSome }

def recover (c : OpCell) (now : UtcDateTime) : Result OpCell :=
  (c.record c.interrupted now).map fun c => { c with token := c.token + 1 }

def recoverIfDead (c : OpCell) (now : UtcDateTime) : Result OpCell :=
  if c.isDead now then c.recover now else .ok c

/-- Takes the op from whatever worker held it and makes it due at once. -/
def rearm (c : OpCell) : OpCell :=
  { c with
    token := c.token + 1
    state := .pending
    leaseExpiry := none
    nextAttemptAt := none
    handedOver := none
    detail := none }

/-- Whether an op waiting in `pending` may be attempted at `now`. -/
def isDue (c : OpCell) (now : UtcDateTime) : Bool :=
  c.nextAttemptAt.all fun due => decide (due ≤ now)

end OpCell

abbrev Ops := Table OpCell

structure Mem where
  ops : Ops
  idempotency : List ((AccountId × IdempotencyKey) × PendingOpId)
  nextOp : PendingOpId

namespace Mem

def new : Mem := ⟨Table.empty, [], 0⟩

/-! ## Over all ops -/

/-- Recovers every dead attempt of `account`. -/
def recoverDead (ops : Ops) (account : AccountId) (now : UtcDateTime) : Ops × Result Unit :=
  ops.tryMap fun _ cell => if cell.account = account then cell.recoverIfDead now else .ok cell

/-- Stamps every op that reached a terminal state since the last sweep. -/
def sweep (ops : Ops) (now : UtcDateTime) : Ops :=
  ops.mapRows fun _ cell =>
    if cell.state.isTerminal && cell.settledAt.isNone then { cell with settledAt := some now }
    else cell

/-- The ops as a claim of `account` decides on them: dead attempts recovered. -/
def ready (ops : Ops) (account : AccountId) (now : UtcDateTime) : Ops :=
  sweep (recoverDead ops account now).1 now

/-- Whether a lease on an op other than `except` holds `resource`. -/
def resourceHeld (ops : Ops) (account : AccountId) (resource : ResourceKey)
    (except : PendingOpId) : Bool :=
  ops.rows.any fun (id, o) =>
    decide (id ≠ except) && decide (o.account = account) &&
      decide (o.op.resourceKey = resource) && decide (o.state = .inFlight)

/-- Whether every op `cell` depends on has succeeded. -/
def dependenciesMet (ops : Ops) (account : AccountId) (cell : OpCell) : Bool :=
  cell.op.dependsOn.all fun d =>
    (ops.get? d).any fun dep => decide (dep.account = account) && dep.state.isSuccess

/-- Leases `cell` until `expiry`. -/
def lease (cell : OpCell) (id : PendingOpId) (req : LeaseRequest) (expiry : UtcDateTime) :
    OpCell × LeasedPendingOp :=
  let cell := { cell with token := cell.token + 1, state := .inFlight, leaseExpiry := some expiry }
  (cell, ⟨id, cell.op, ⟨cell.account, id, cell.token, req.owner, expiry⟩⟩)

/-! ## Enqueue and claim -/

def enqueue (s : Mem) (account : AccountId) (op : PendingOp) : Mem × Result PendingOpId :=
  match s.idempotency.lookup (account, op.idempotencyKey) with
  | some id => (s, .ok id)
  | none =>
    let id := s.nextOp
    ({ ops := s.ops.insert id (OpCell.queued account op)
       idempotency := ((account, op.idempotencyKey), id) :: s.idempotency
       nextOp := id + 1 }, .ok id)

/-- Whether the batch claim may lease `o`. -/
def runnable (ops : Ops) (account : AccountId) (now : UtcDateTime) (o : OpCell) : Bool :=
  decide (o.account = account) && decide (o.state = .pending) && o.isDue now &&
    dependenciesMet ops account o

/-- The loop of the batch claim over the ids still to visit.  `taken` holds the resources no
further op may be leased on. -/
def claimLoop (account : AccountId) (req : LeaseRequest) (expiry now : UtcDateTime) (limit : Nat) :
    List PendingOpId → Ops → List ResourceKey → List LeasedPendingOp →
      Ops × List LeasedPendingOp
  | [], ops, _, result => (ops, result)
  | id :: ids, ops, taken, result =>
    if limit ≤ result.length then (ops, result)
    else
      match ops.get? id with
      | none => claimLoop account req expiry now limit ids ops taken result
      | some o =>
        if runnable ops account now o && !taken.contains o.op.resourceKey then
          claimLoop account req expiry now limit ids (ops.insert id (lease o id req expiry).1)
            (o.op.resourceKey :: taken) (result ++ [(lease o id req expiry).2])
        else claimLoop account req expiry now limit ids ops taken result

/-- The resources an op of `account` in flight holds. -/
def takenResources (ops : Ops) (account : AccountId) : List ResourceKey :=
  (ops.values.filter fun o => decide (o.account = account) && decide (o.state = .inFlight)).map
    fun o => o.op.resourceKey

def claimOps (s : Mem) (account : AccountId) (req : LeaseRequest) (limit : Nat)
    (now : UtcDateTime) : Mem × Result (List LeasedPendingOp) :=
  match expiryAfter now req.ttl with
  | .error e => (s, .error e)
  | .ok expiry =>
    match recoverDead s.ops account now with
    | (ops, .error e) => ({ s with ops }, .error e)
    | (ops, .ok ()) =>
      let ops := sweep ops now
      let claimed := claimLoop account req expiry now limit ops.keys ops
        (takenResources ops account) []
      ({ s with ops := claimed.1 }, .ok claimed.2)

/-- Why the state of `cell` alone refuses a targeted claim. -/
def stateRefusal (now : UtcDateTime) (cell : OpCell) : Option ClaimRejection :=
  match cell.state with
  | .pending => if cell.isDue now then none else some .backoff
  | .inFlight => some .busy
  | .succeeded | .failed | .cancelled | .needsConfirmation => some .settled

/-- Why a targeted claim cannot lease `cell`, in the order the reasons are tried. -/
def claimRefusal (ops : Ops) (account : AccountId) (id : PendingOpId) (now : UtcDateTime)
    (cell : OpCell) : Option ClaimRejection :=
  ((stateRefusal now cell).or
    (if dependenciesMet ops account cell then none else some .dependencyUnmet)).or
    (if resourceHeld ops account cell.op.resourceKey id then some .busy else none)

def claimOne (s : Mem) (account : AccountId) (id : PendingOpId) (req : LeaseRequest)
    (now : UtcDateTime) : Mem × Result PendingOpClaim :=
  match expiryAfter now req.ttl with
  | .error e => (s, .error e)
  | .ok expiry =>
    match recoverDead s.ops account now with
    | (ops, .error e) => ({ s with ops }, .error e)
    | (ops, .ok ()) =>
      let ops := sweep ops now
      match (ops.get? id).filter fun o => decide (o.account = account) with
      | none => ({ s with ops }, .ok (.refused .unknown))
      | some cell =>
        match claimRefusal ops account id now cell with
        | some refusal => ({ s with ops }, .ok (.refused refusal))
        | none =>
          ({ s with ops := ops.insert id (lease cell id req expiry).1 },
            .ok (.leased (lease cell id req expiry).2))

/-! ## The worker's verbs -/

/-- Whether the store hears an outcome reported under `lease`: it is the op's current one, or
the one whose attempt handed the message over before a recovery parked it. -/
def admits (cell : OpCell) (lease : OpLease) : Bool :=
  decide (lease.token = cell.token) ||
    (decide (cell.state = .needsConfirmation) && decide (cell.handedOver = some lease.token))

def mark (s : Mem) (lease : OpLease) (outcome : PendingOutcome) (now : UtcDateTime) :
    Mem × Result Unit :=
  match s.ops.get? lease.op with
  | none => (s, .error .staleLease)
  | some cell =>
    if admits cell lease then
      match cell.record outcome now with
      | .error e => (s, .error e)
      | .ok cell => ({ s with ops := sweep (s.ops.insert lease.op cell) now }, .ok ())
    else (s, .error .staleLease)

/-- The op `lease` still holds in flight. -/
def held (ops : Ops) (lease : OpLease) : Option OpCell :=
  (ops.get? lease.op).filter fun o =>
    decide (o.token = lease.token) && decide (o.state = .inFlight)

def handOver (s : Mem) (lease : OpLease) : Mem × Result Unit :=
  match held s.ops lease with
  | none => (s, .error .staleLease)
  | some cell =>
    ({ s with ops := s.ops.insert lease.op { cell with handedOver := some lease.token } }, .ok ())

def renew (s : Mem) (lease : OpLease) (ttl : Nat) (now : UtcDateTime) : Mem × Result Unit :=
  match expiryAfter now ttl with
  | .error e => (s, .error e)
  | .ok expiry =>
    match held s.ops lease with
    | none => (s, .error .staleLease)
    | some cell =>
      ({ s with ops := s.ops.insert lease.op { cell with leaseExpiry := some expiry } }, .ok ())

def recoverInterrupted (s : Mem) (now : UtcDateTime) : Mem × Result Nat :=
  match s.ops.tryMap fun _ cell =>
      if cell.state = .inFlight then cell.recover now else .ok cell with
  | (ops, .error e) => ({ s with ops }, .error e)
  | (ops, .ok ()) =>
    ({ s with ops := sweep ops now },
      .ok (s.ops.values.filter fun o => decide (o.state = .inFlight)).length)

/-! ## The host's verbs -/

/-- Why a verb that withdraws or hurries cannot act on `cell`. -/
def hostRefusal (cell : OpCell) : Option OpRejection :=
  match cell.state with
  | .pending => none
  | .inFlight => some .inFlight
  | .needsConfirmation => some .awaitingConfirmation
  | .failed => if staysListed (some cell.op.kind) cell.state then none else some .settled
  | .succeeded | .cancelled => some .settled

/-- Finds `id` in `account`'s outbox with any dead attempt recovered, then lets `act` decide.
`none` from `act` means it took effect. -/
def hostVerb (s : Mem) (account : AccountId) (id : PendingOpId) (now : UtcDateTime)
    (act : OpCell → OpCell × Option OpRejection) : Mem × Result (Option OpRejection) :=
  match (s.ops.get? id).filter fun o => decide (o.account = account) with
  | none => (s, .ok (some .unknown))
  | some cell =>
    match cell.recoverIfDead now with
    | .error e => (s, .error e)
    | .ok cell => ({ s with ops := sweep (s.ops.insert id (act cell).1) now }, .ok (act cell).2)

def cancelAct (cell : OpCell) : OpCell × Option OpRejection :=
  match hostRefusal cell with
  | some refusal => (cell, some refusal)
  | none =>
    ({ cell with token := cell.token + 1, state := .cancelled, leaseExpiry := none,
                 nextAttemptAt := none }, none)

def retryNowAct (cell : OpCell) : OpCell × Option OpRejection :=
  match hostRefusal cell with
  | some refusal => (cell, some refusal)
  | none =>
    let cell := if cell.state = .failed then cell.rearm else cell
    ({ cell with nextAttemptAt := none }, none)

def confirmAct (confirmation : Confirmation) (cell : OpCell) : OpCell × Option OpRejection :=
  match cell.state with
  | .needsConfirmation =>
    match confirmation with
    | .delivered =>
      ({ cell with token := cell.token + 1, state := .succeeded, handedOver := none }, none)
    | .notDelivered => (cell.rearm, none)
  | .inFlight => (cell, some .inFlight)
  | _ => (cell, some .notAwaitingConfirmation)

def cancel (s : Mem) (account : AccountId) (id : PendingOpId) (now : UtcDateTime) :
    Mem × Result (Option OpRejection) :=
  s.hostVerb account id now cancelAct

def retryNow (s : Mem) (account : AccountId) (id : PendingOpId) (now : UtcDateTime) :
    Mem × Result (Option OpRejection) :=
  s.hostVerb account id now retryNowAct

def confirm (s : Mem) (account : AccountId) (id : PendingOpId) (confirmation : Confirmation)
    (now : UtcDateTime) : Mem × Result (Option OpRejection) :=
  s.hostVerb account id now (confirmAct confirmation)

/-! ## An applied page and the queue read -/

/-- Settles `op` as a page's proof of delivery does. -/
def settleDelivered (op : OpCell) : OpCell :=
  { op with state := .succeeded, leaseExpiry := none }

/-- The reconciliation loop of an applied page, with how many ops it resolved so far. -/
def reconcileLoop (now : UtcDateTime) : List ReconciledOp → Ops → Nat → Ops × Result Nat
  | [], ops, reconciled => (ops, .ok reconciled)
  | r :: rest, ops, reconciled =>
    match ops.get? r.op with
    | none => reconcileLoop now rest ops reconciled
    | some op =>
      match op.recoverIfDead now with
      | .error e => (ops, .error e)
      | .ok op =>
        if op.state = r.expected then
          reconcileLoop now rest (ops.insert r.op (settleDelivered op)) (reconciled + 1)
        else reconcileLoop now rest (ops.insert r.op op) reconciled

/-- What an accepted page does to the outbox. -/
def reconcile (s : Mem) (recs : List ReconciledOp) (now : UtcDateTime) : Mem × Result Nat :=
  match reconcileLoop now recs s.ops 0 with
  | (ops, .error e) => ({ s with ops }, .error e)
  | (ops, .ok n) => ({ s with ops := sweep ops now }, .ok n)

def listRows (account : AccountId) (now : UtcDateTime) :
    List (PendingOpId × OpCell) → Result (List PendingOpRow)
  | [] => .ok []
  | (id, cell) :: rest =>
    if cell.account ≠ account then listRows account now rest
    else
      match cell.view now with
      | .error e => .error e
      | .ok view =>
        if staysListed (some cell.op.kind) view.state then
          (listRows account now rest).map fun rows =>
            { id, kind := some cell.op.kind, idempotencyKey := cell.op.idempotencyKey,
              resourceKey := cell.op.resourceKey, payload := cell.op.payload,
              state := view.state, attempts := view.attempts,
              nextAttemptAt := view.nextAttemptAt, failureClass := view.failureClass,
              detail := view.detail } :: rows
        else listRows account now rest

def list (s : Mem) (account : AccountId) (now : UtcDateTime) : Result (List PendingOpRow) :=
  listRows account now s.ops.rows

/-- One store call. -/
def run : Behaviour Mem := fun s call now =>
  match call with
  | .enqueue account op => ((s.enqueue account op).1, .enqueued (s.enqueue account op).2)
  | .claimOps account req limit =>
    ((s.claimOps account req limit now).1, .leased (s.claimOps account req limit now).2)
  | .claimOne account id req =>
    ((s.claimOne account id req now).1, .claimed (s.claimOne account id req now).2)
  | .handOver lease => ((s.handOver lease).1, .done (s.handOver lease).2)
  | .renew lease ttl => ((s.renew lease ttl now).1, .done (s.renew lease ttl now).2)
  | .mark lease outcome => ((s.mark lease outcome now).1, .done (s.mark lease outcome now).2)
  | .recoverInterrupted => ((s.recoverInterrupted now).1, .counted (s.recoverInterrupted now).2)
  | .cancel account id => ((s.cancel account id now).1, .verdict (s.cancel account id now).2)
  | .retryNow account id => ((s.retryNow account id now).1, .verdict (s.retryNow account id now).2)
  | .confirm account id confirmation =>
    ((s.confirm account id confirmation now).1, .verdict (s.confirm account id confirmation now).2)
  | .reconcile recs => ((s.reconcile recs now).1, .counted (s.reconcile recs now).2)
  | .list account => (s, .listed (s.list account now))

end Mem

end Outbox
end SyncEngine
