import Mathlib
import SyncEngine.Library.Table
import SyncEngine.Time
import SyncEngine.Library.Concurrent

/-!
# The write contract

The envelope of a durable pending operation, the outcome an attempt reports, the lease a worker resolves it under, and
the answers the store gives.  Keys and payloads are opaque strings.  A fencing token starts at zero and a claim raises
it by one; the source counts it in sixty-four bits and no run reaches that bound, so it is a natural number here.
-/

namespace SyncEngine

abbrev AccountId := String
abbrev ResourceKey := String
abbrev IdempotencyKey := String
abbrev ProviderKey := String
abbrev Keyword := String
abbrev WorkerId := String
abbrev PendingOpId := Nat

inductive StoreError
  | staleLease
  | scopeHeld
  | conflict
  | notRunnable
  | backend (message : String)
  | shuttingDown
deriving DecidableEq

abbrev Result (α : Type) := Except StoreError α

/-- Why an operation against a provider failed. -/
inductive FailureClass
  | retryable
  | rateLimited
  | authentication
  | conflict
  | invalidState
  | needsResync
  | permanent
deriving DecidableEq

def FailureClass.isRetryable : FailureClass → Bool
  | .retryable | .rateLimited => true
  | _ => false

/-- A provider's failure.  One that asks for confirmation leaves open whether the write took effect. -/
structure ProviderError where
  failure : FailureClass
  message : String
  confirmationNeeded : Bool
deriving DecidableEq

namespace ProviderError

def retryable (message : String) : ProviderError := ⟨.retryable, message, false⟩

def permanent (message : String) : ProviderError := ⟨.permanent, message, false⟩

def needsConfirmation (message : String) : ProviderError := ⟨.invalidState, message, true⟩

end ProviderError

inductive SearchDomain
  | mail
  | calendar
  | contacts
deriving DecidableEq

/-- Which write an op's payload describes. -/
inductive PendingOpKind
  | mailSubmit
  | mailEdit
  | mailReport
  | mailDraftPut
  | mailDraftDelete
  | mailboxEdit
  | calendarCreate
  | calendarPatch
  | calendarDocument
  | calendarRsvp
  | calendarDelete
  | contactCreate
  | contactPatch
  | contactDelete
deriving DecidableEq

def PendingOpKind.domain : PendingOpKind → SearchDomain
  | .mailSubmit | .mailEdit | .mailReport | .mailDraftPut | .mailDraftDelete | .mailboxEdit =>
    .mail
  | .calendarCreate | .calendarPatch | .calendarDocument | .calendarRsvp | .calendarDelete =>
    .calendar
  | .contactCreate | .contactPatch | .contactDelete => .contacts

/-- Keywords a queued op sets and clears on one message. -/
structure KeywordEdit where
  key : ProviderKey
  add : Finset Keyword
  remove : Finset Keyword
deriving DecidableEq

/-- A durable pending write operation. -/
structure PendingOp where
  idempotencyKey : IdempotencyKey
  kind : PendingOpKind
  dependsOn : List PendingOpId := []
  resourceKey : ResourceKey
  payload : String
  keywordEdit : Option KeywordEdit := none
deriving DecidableEq

/-- The result of attempting a pending operation. -/
inductive PendingOutcome
  | succeeded (providerKey : ProviderKey)
  | failed (cls : FailureClass) (retryAfter : Option Duration)
  | needsConfirmation (detail : String)
deriving DecidableEq

def PendingOutcome.isFailed : PendingOutcome → Bool
  | .failed _ _ => true
  | _ => false

inductive PendingOpState
  | pending
  | inFlight
  | needsConfirmation
  | succeeded
  | failed
  | cancelled
deriving DecidableEq

namespace PendingOpState

def isTerminal : PendingOpState → Bool
  | .succeeded | .failed | .cancelled => true
  | _ => false

def isSuccess : PendingOpState → Bool
  | .succeeded => true
  | _ => false

theorem isSuccess_iff {s : PendingOpState} : s.isSuccess = true ↔ s = .succeeded := by
  cases s <;> simp [isSuccess]

end PendingOpState

/-! ## Leases -/

/-- A request to acquire a lease, with the span it stays valid in nanoseconds. -/
structure LeaseRequest where
  owner : WorkerId
  ttl : Nat
deriving DecidableEq

/-- A store-issued lease over one in-flight outbox op. -/
structure OpLease where
  account : AccountId
  op : PendingOpId
  token : Nat
  owner : WorkerId
  expiry : UtcDateTime
deriving DecidableEq

structure LeasedPendingOp where
  id : PendingOpId
  op : PendingOp
  lease : OpLease
deriving DecidableEq

/-! ## Answers -/

/-- Why a targeted claim did not lease the op it named. -/
inductive ClaimRejection
  | unknown
  | settled
  | dependencyUnmet
  | busy
  | backoff
deriving DecidableEq

inductive PendingOpClaim
  | leased (l : LeasedPendingOp)
  | refused (r : ClaimRejection)
deriving DecidableEq

/-- Why a host's request to act on a queued op did not take effect. -/
inductive OpRejection
  | unknown
  | settled
  | inFlight
  | awaitingConfirmation
  | notAwaitingConfirmation
deriving DecidableEq

/-- What the host learned about a send awaiting confirmation. -/
inductive Confirmation
  | delivered
  | notDelivered
deriving DecidableEq

/-- One row of an account's outbox, as a host reads it back. -/
structure PendingOpRow where
  id : PendingOpId
  kind : Option PendingOpKind
  idempotencyKey : IdempotencyKey
  resourceKey : ResourceKey
  payload : String
  state : PendingOpState
  attempts : Nat
  nextAttemptAt : Option UtcDateTime
  failureClass : Option FailureClass
  detail : Option String
deriving DecidableEq

/-- An op an applied page proves delivered, with the state the planner saw it in. -/
structure ReconciledOp where
  op : PendingOpId
  expected : PendingOpState
deriving DecidableEq

/-- The instant a lease requested at `now` lapses. -/
def expiryAfter (now : UtcDateTime) (ttl : Nat) : Result UtcDateTime :=
  match now.checkedAdd ttl with
  | some expiry => .ok expiry
  | none => .error (.backend "lease ttl overflow")

namespace Outbox

/-!
## The calls workers and hosts make

A run of an outbox is a sequence of store calls, each with the clock reading the store took for it and its answer.
Every store call is atomic, so the interleaving of workers and hosts is the order of the calls.  A clock reading is not
tied to the ones before it.  A caller can present no lease but one the store issued: `System.issued` collects every
lease ever handed out, so one presented twice, or long after it lapsed, is part of the model.
-/

inductive Call
  | enqueue (account : AccountId) (op : PendingOp)
  | claimOps (account : AccountId) (req : LeaseRequest) (limit : Nat)
  | claimOne (account : AccountId) (id : PendingOpId) (req : LeaseRequest)
  | handOver (lease : OpLease)
  | renew (lease : OpLease) (ttl : Nat)
  | mark (lease : OpLease) (outcome : PendingOutcome)
  | recoverInterrupted
  | cancel (account : AccountId) (id : PendingOpId)
  | retryNow (account : AccountId) (id : PendingOpId)
  | confirm (account : AccountId) (id : PendingOpId) (confirmation : Confirmation)
  | reconcile (recs : List ReconciledOp)
  | list (account : AccountId)

inductive Reply
  | enqueued (r : Result PendingOpId)
  | leased (r : Result (List LeasedPendingOp))
  | claimed (r : Result PendingOpClaim)
  | done (r : Result Unit)
  | counted (r : Result Nat)
  | verdict (r : Result (Option OpRejection))
  | listed (r : Result (List PendingOpRow))

def Call.presents : Call → Option OpLease
  | .handOver lease | .renew lease _ | .mark lease _ => some lease
  | _ => none

/-- The ops an answer hands out to be run. -/
def Reply.granted : Reply → List LeasedPendingOp
  | .leased (.ok ls) => ls
  | .claimed (.ok (.leased l)) => [l]
  | _ => []

def Reply.leases (r : Reply) : List OpLease := r.granted.map LeasedPendingOp.lease

/-- One call of a run, with the clock reading it used and the answer it got. -/
structure Entry where
  call : Call
  now : UtcDateTime
  reply : Reply

/-- A store together with every lease it ever issued. -/
structure System (σ : Type) where
  store : σ
  issued : List OpLease

/-- A store takes a call at a clock reading to a new state and an answer. -/
abbrev Behaviour (σ : Type) := σ → Call → UtcDateTime → σ × Reply

structure Step {σ : Type} (run : Behaviour σ) (s : System σ) (e : Entry) (s' : System σ) :
    Prop where
  presented : ∀ lease, e.call.presents = some lease → lease ∈ s.issued
  answered : run s.store e.call e.now = (s'.store, e.reply)
  issued : s'.issued = s.issued ++ e.reply.leases

variable {σ : Type} {run : Behaviour σ} {s s' : System σ}

theorem Step.subset_issued {e : Entry}
    (h : Step run s e s') {lease : OpLease} (hl : lease ∈ s.issued) : lease ∈ s'.issued := by
  rw [h.issued]
  exact List.mem_append_left _ hl

/-! ## Replaying calls -/

def System.trace {σ : Type} (run : Behaviour σ) (s : System σ) :
    List (Call × UtcDateTime) → List Entry × System σ
  | [] => ([], s)
  | (call, now) :: rest =>
    let out := run s.store call now
    let next := System.trace run ⟨out.1, s.issued ++ out.2.leases⟩ rest
    (⟨call, now, out.2⟩ :: next.1, next.2)

def System.lawful {σ : Type} (run : Behaviour σ) (s : System σ) :
    List (Call × UtcDateTime) → Bool
  | [] => true
  | (call, now) :: rest =>
    let out := run s.store call now
    call.presents.all (fun lease => decide (lease ∈ s.issued)) &&
      System.lawful run ⟨out.1, s.issued ++ out.2.leases⟩ rest

theorem System.run_trace {calls : List (Call × UtcDateTime)} (h : s.lawful run calls = true) :
    Run (Step run) s (s.trace run calls).1 (s.trace run calls).2 := by
  induction calls generalizing s with
  | nil => exact .nil s
  | cons c rest ih =>
    obtain ⟨call, now⟩ := c
    simp only [System.lawful, Bool.and_eq_true, Option.all_eq_true, decide_eq_true_eq] at h
    exact .cons ⟨h.1, rfl, rfl⟩ (ih h.2)

theorem System.trace_of_run {es : List Entry} (h : Run (Step run) s es s') :
    s.trace run (es.map fun e => (e.call, e.now)) = (es, s') := by
  induction h with
  | nil s => rfl
  | @cons s s₁ s₂ e es hstep _ ih =>
    have hs₁ : (⟨s₁.store, s.issued ++ e.reply.leases⟩ : System σ) = s₁ := by rw [← hstep.issued]
    rw [List.map_cons, System.trace]
    simp only [hstep.answered, hs₁, ih]

/-! ## Values for runs written out -/

namespace Sample

theorem noon_lt : 379409227200000000000 < UtcDateTime.rangeNanos := by decide

/-- Noon of the first day of 2024. -/
def noon : UtcDateTime := ⟨379409227200000000000, noon_lt⟩

def request : LeaseRequest := ⟨"worker", 30 * second⟩

def send : PendingOp :=
  { idempotencyKey := "send", kind := .mailSubmit, resourceKey := "outbox", payload := "\"hello\"" }

def edit : PendingOp :=
  { idempotencyKey := "edit", kind := .mailEdit, resourceKey := "mail", payload := "\"seen\"" }

theorem halfPast_lt : 379409227230000000000 < UtcDateTime.rangeNanos := by decide

theorem minutePast_lt : 379409227260000000000 < UtcDateTime.rangeNanos := by decide

/-- The lease a claim made at noon under `request` grants on an op of the account `a`. -/
def lease (id : PendingOpId) (token : Nat) : OpLease :=
  ⟨"a", id, token, "worker", ⟨379409227230000000000, halfPast_lt⟩⟩

end Sample

end Outbox
end SyncEngine
