import SyncEngine.Outbox.RefineVerbs

/-!
# The durable outbox refines the reference one

Every call made to both stores with the same clock readings gets the same answer, up to
the numbering of the ops, and leaves every op with the same state, attempts and due time.
That holds of every run whose calls meet `Agreeing`.  Each of its parts keeps out one way
the two part:

* an op id past the range of a rowid, which only the durable store refuses;
* a recovery that fails for want of room in the calendar, which the durable store undoes
  as a whole and the reference store leaves half done;
* an outcome that brings an op back to the queue after the durable store has dropped its
  payload;
* a page that names an op in flight and leaves another dead attempt of its account
  unnamed, which the durable store recovers and the reference store does not;
* a clock that reads a year before 0, whose instants the durable store writes and cannot
  read back;
* a payload that nests deeper than the durable store's parser goes.

The page is a difference between the two readings of one rule, and the run at the end
of this module shows it: a worker the page did not name is fenced out of one store only.
-/

namespace SyncEngine
namespace Outbox

def Call.names : Call → List PendingOpId
  | .enqueue _ op => op.dependsOn
  | .claimOne _ id _ | .cancel _ id | .retryNow _ id | .confirm _ id _ => [id]
  | .handOver lease | .renew lease _ | .mark lease _ => [lease.op]
  | .reconcile recs => namedBy recs
  | .claimOps _ _ _ | .recoverInterrupted | .list _ => []

/-- Whether a call may recover `c` on its way over the queue. -/
def Call.reaches (call : Call) (now : UtcDateTime) (c : OpCell) : Bool :=
  match call with
  | .claimOps account _ _ | .claimOne account _ _ => deadOf account now c
  | .recoverInterrupted => decide (c.state = .inFlight)
  | .reconcile _ => c.isDead now
  | _ => false

structure Agreeing (s : Mem) (call : Call) (now : UtcDateTime) : Prop where
  inRange : ∀ id ∈ call.names, rowid id < 9223372036854775808
  room : ∀ id c, s.ops.get? id = some c → call.reaches now c = true →
    ∃ c', c.recover now = .ok c'
  closed : ∀ lease outcome, call = .mark lease outcome → ∀ c r, s.ops.get? lease.op = some c →
    Mem.admits c lease = true → c.recorded outcome now = .ok r →
    staysListed (some c.op.kind) r.state = true → c.listed = true
  named : ∀ recs, call = .reconcile recs → ∀ r ∈ recs, ∀ c, s.ops.get? r.op = some c →
    c.state = .inFlight → ∀ id d, s.ops.get? id = some d → d.account = c.account →
    d.isDead now = true → id ∈ namedBy recs
  clock : Written now
  payload : ∀ account op, call = .enqueue account op → payloadRefused op.payload = none

def AgreeingStep (s : MemSystem) (e : Entry) (s' : MemSystem) : Prop :=
  MemStep s e s' ∧ Agreeing s.store e.call e.now

section Calls

variable {s : Mem} {db : Sqlite} {call : Call} {now : UtcDateTime}

theorem Agreeing.recoverable (h : Agreeing s call now) {p : OpCell → Bool}
    (hp : ∀ c, p c = true → call.reaches now c = true ∧ c.state = .inFlight) :
    Recoverable s.ops p now := by
  intro id c hc hpc
  obtain ⟨hreach, hs⟩ := hp c hpc
  exact ⟨hs, h.room id c hc hreach⟩

theorem deadOf_inFlight {account : AccountId} {c : OpCell} (h : deadOf account now c = true) : c.state = .inFlight := by
  unfold deadOf at h
  rw [Bool.and_eq_true] at h
  exact OpCell.isDead_inFlight h.2

theorem run_refines (h : Refines s db) (hfit : ∀ lease, call.presents = some lease → Fits s lease)
    (hagree : Agreeing s call now) :
    (Sqlite.run db call.rename now).2 = (Mem.run s call now).2.rename ∧
      Refines (Mem.run s call now).1 (Sqlite.run db call.rename now).1 := by
  have hid := hagree.inRange
  cases call with
  | enqueue account op =>
    obtain ⟨hres, hrel⟩ := h.enqueue account hid (hagree.payload account op rfl)
    exact ⟨congrArg Reply.enqueued hres, hrel⟩
  | claimOps account req limit =>
    have hp := hagree.recoverable fun c (hc : deadOf account now c = true) =>
      ⟨hc, deadOf_inFlight hc⟩
    obtain ⟨hres, hrel⟩ := h.claimOps hagree.clock req limit hp
    exact ⟨congrArg Reply.leased hres, hrel⟩
  | claimOne account id req =>
    have hp := hagree.recoverable fun c (hc : deadOf account now c = true) =>
      ⟨hc, deadOf_inFlight hc⟩
    obtain ⟨hres, hrel⟩ := h.claimOne hagree.clock req (hid id List.mem_cons_self) hp
    exact ⟨congrArg Reply.claimed hres, hrel⟩
  | handOver lease =>
    obtain ⟨hres, hrel⟩ := h.handOver (hfit lease rfl) (hid _ List.mem_cons_self)
    exact ⟨congrArg Reply.done hres, hrel⟩
  | renew lease ttl =>
    obtain ⟨hres, hrel⟩ := h.renew hagree.clock (hfit lease rfl) (hid _ List.mem_cons_self) ttl
    exact ⟨congrArg Reply.done hres, hrel⟩
  | mark lease outcome =>
    obtain ⟨hres, hrel⟩ := h.mark hagree.clock (hfit lease rfl) (hid _ List.mem_cons_self)
      (hagree.closed lease outcome rfl)
    exact ⟨congrArg Reply.done hres, hrel⟩
  | recoverInterrupted =>
    have hp := hagree.recoverable fun c (hc : decide (c.state = .inFlight) = true) =>
      ⟨hc, of_decide_eq_true hc⟩
    obtain ⟨hres, hrel⟩ := h.recoverInterrupted hagree.clock hp
    exact ⟨congrArg Reply.counted hres, hrel⟩
  | cancel account id =>
    obtain ⟨hres, hrel⟩ := h.hostVerb account hagree.clock (hid id List.mem_cons_self) (cancel_decides id)
    exact ⟨congrArg Reply.verdict hres, hrel⟩
  | retryNow account id =>
    obtain ⟨hres, hrel⟩ := h.hostVerb account hagree.clock (hid id List.mem_cons_self) (retryNow_decides id)
    exact ⟨congrArg Reply.verdict hres, hrel⟩
  | confirm account id confirmation =>
    obtain ⟨hres, hrel⟩ := h.hostVerb account hagree.clock (hid id List.mem_cons_self) (confirm_decides id confirmation)
    exact ⟨congrArg Reply.verdict hres, hrel⟩
  | reconcile recs =>
    have hconf : Confined now recs s.ops := ⟨hagree.room, hagree.named recs rfl⟩
    obtain ⟨hres, hrel⟩ := h.reconcile hagree.clock hconf hid
    exact ⟨congrArg Reply.counted hres, hrel⟩
  | list account => exact ⟨congrArg Reply.listed h.list, h⟩

end Calls

/-! ## Runs -/

/-- What a run leaves of an op: where it stands, how often it was tried and when it is due. -/
structure Progress where
  state : PendingOpState
  attempts : Nat
  nextAttemptAt : Option UtcDateTime
deriving DecidableEq

def OpCell.progress (c : OpCell) : Progress := ⟨c.state, c.attempts, c.nextAttemptAt⟩

def OpRow.progress (r : OpRow) : Progress := ⟨r.state, r.attempts, r.nextAttemptAt⟩

/-- Both stores hold the same ops, up to their numbering, and each has come as far. -/
def SameProgress (s : Mem) (db : Sqlite) : Prop :=
  db.pendingOp.get? 0 = none ∧
    ∀ id, (db.pendingOp.get? (rowid id)).map OpRow.progress =
      (s.ops.get? id).map OpCell.progress

theorem Refines.sameProgress {s : Mem} {db : Sqlite} (h : Refines s db) : SameProgress s db := by
  refine ⟨?_, ?_⟩
  · rw [h.rows]
    exact Table.get?_renumber_zero s.ops rowOf
  · intro id
    rw [h.get?, Option.map_map]
    rfl

/-- The two systems side by side. -/
structure Paired (s : MemSystem) (d : SqliteSystem) : Prop where
  fenced : Fenced s
  refines : Refines s.store d.store
  issued : d.issued = s.issued.map OpLease.rename

theorem Paired.step {s s' : MemSystem} {d : SqliteSystem} {e : Entry} (h : Paired s d)
    (hstep : AgreeingStep s e s') : ∃ d', SqliteStep d e.rename d' ∧ Paired s' d' := by
  obtain ⟨hmem, hagree⟩ := hstep
  have hfit : ∀ lease, e.call.presents = some lease → Fits s.store lease := by
    intro lease hl c hc
    obtain ⟨c', hc', hacc, -⟩ := h.fenced.known lease (hmem.presented lease hl)
    rw [hc, Option.some.injEq] at hc'
    rw [hc']
    exact hacc
  obtain ⟨hreply, hrel⟩ := run_refines h.refines hfit hagree
  rw [hmem.answered] at hreply hrel
  refine ⟨⟨(Sqlite.run d.store e.call.rename e.now).1, d.issued ++ e.reply.rename.leases⟩,
    ⟨?_, ?_, rfl⟩, ⟨h.fenced.step hmem, hrel, ?_⟩⟩
  · intro lease hl
    have hl' : e.call.presents.map OpLease.rename = some lease := by
      rw [← Call.presents_rename]
      exact hl
    obtain ⟨l, hpres, rfl⟩ := Option.map_eq_some_iff.mp hl'
    rw [h.issued]
    exact List.mem_map_of_mem (hmem.presented l hpres)
  · show Sqlite.run d.store e.call.rename e.now = (_, e.reply.rename)
    exact Prod.ext rfl hreply
  · rw [hmem.issued, List.map_append, ← h.issued, Reply.leases_rename]

theorem Paired.run {s s' : MemSystem} {d : SqliteSystem} {es : List Entry} (h : Paired s d)
    (hrun : Run AgreeingStep s es s') :
    ∃ d', Run SqliteStep d (es.map Entry.rename) d' ∧ Paired s' d' := by
  induction hrun generalizing d with
  | nil s => exact ⟨d, .nil d, h⟩
  | cons hstep _ ih =>
    obtain ⟨d₁, hd₁, hpair⟩ := h.step hstep
    obtain ⟨d', hd', hfin⟩ := ih hpair
    exact ⟨d', .cons hd₁ hd', hfin⟩

theorem paired_start : Paired MemSystem.start SqliteSystem.start := ⟨fenced_start, refines_new, rfl⟩

namespace Sample

theorem written_noon : Written noon := by
  unfold Written
  decide +kernel

def twoQueued : List (Call × UtcDateTime) :=
  [(.enqueue "a" send, noon), (.enqueue "a" edit, noon)]

/-- Two writes of one account are leased, and the second one's worker outlives its lease. -/
def twoLeased : List (Call × UtcDateTime) :=
  [(.enqueue "a" send, noon), (.enqueue "a" edit, noon), (.claimOps "a" request 2, noon),
    (.handOver (lease 0 1), noon)]

/-- A minute after noon, when a lease granted at noon has lapsed. -/
def late : UtcDateTime := ⟨379409227260000000000, minutePast_lt⟩

/-- A page proves the first one delivered, and the second one's worker asks for more time. -/
def deliveredThenRenewed : List (Call × UtcDateTime) :=
  [(.reconcile [⟨0, .needsConfirmation⟩], late), (.renew (lease 1 1) (30 * second), late)]

end Sample

end Outbox
end SyncEngine
