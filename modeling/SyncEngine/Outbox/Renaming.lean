import SyncEngine.Outbox.Lease

/-!
# One outbox seen as the other

The reference store numbers its ops from zero and the durable one from one.  `Refines s db` says that the tables of
`db` hold what `s` holds under that renaming: the same rows, the payload of every op the queue still lists, and the same
idempotency keys.  What the tables keep as text can be read back.

Every write of the durable store is one of two updates of a row; `Refines.updateState` and `Refines.update` say what
each does to the relation.
-/

namespace SyncEngine
namespace Outbox

open Table

/-! ## The renaming -/

/-- The id the durable store gives the op the reference store calls `id`. -/
def rowid (id : PendingOpId) : PendingOpId := id + 1

def PendingOp.rename (op : PendingOp) : PendingOp :=
  { op with dependsOn := op.dependsOn.map rowid }

def OpLease.rename (l : OpLease) : OpLease := { l with op := rowid l.op }

def LeasedPendingOp.rename (l : LeasedPendingOp) : LeasedPendingOp :=
  ⟨rowid l.id, PendingOp.rename l.op, OpLease.rename l.lease⟩

def PendingOpClaim.rename : PendingOpClaim → PendingOpClaim
  | .leased l => .leased (LeasedPendingOp.rename l)
  | .refused r => .refused r

def PendingOpRow.rename (r : PendingOpRow) : PendingOpRow := { r with id := rowid r.id }

def ReconciledOp.rename (r : ReconciledOp) : ReconciledOp := { r with op := rowid r.op }

def Call.rename : Call → Call
  | .enqueue account op => .enqueue account (PendingOp.rename op)
  | .claimOps account req limit => .claimOps account req limit
  | .claimOne account id req => .claimOne account (rowid id) req
  | .handOver lease => .handOver (OpLease.rename lease)
  | .renew lease ttl => .renew (OpLease.rename lease) ttl
  | .mark lease outcome => .mark (OpLease.rename lease) outcome
  | .recoverInterrupted => .recoverInterrupted
  | .cancel account id => .cancel account (rowid id)
  | .retryNow account id => .retryNow account (rowid id)
  | .confirm account id confirmation => .confirm account (rowid id) confirmation
  | .reconcile recs => .reconcile (recs.map ReconciledOp.rename)
  | .list account => .list account

/-- An answer with the op ids in it renamed.  An error carries none. -/
def Reply.rename : Reply → Reply
  | .enqueued r => .enqueued (r.map rowid)
  | .leased r => .leased (r.map (List.map LeasedPendingOp.rename))
  | .claimed r => .claimed (r.map PendingOpClaim.rename)
  | .listed r => .listed (r.map (List.map PendingOpRow.rename))
  | .done r => .done r
  | .counted r => .counted r
  | .verdict r => .verdict r

def Entry.rename (e : Entry) : Entry := ⟨e.call.rename, e.now, e.reply.rename⟩

theorem Reply.leases_rename (r : Reply) : r.rename.leases = r.leases.map OpLease.rename := by
  have hmap : ∀ ls : List LeasedPendingOp, (ls.map LeasedPendingOp.rename).map LeasedPendingOp.lease =
        (ls.map LeasedPendingOp.lease).map OpLease.rename := by
    intro ls
    rw [List.map_map, List.map_map]
    rfl
  cases r with
  | leased r =>
    cases r with
    | ok ls => exact hmap ls
    | error e => rfl
  | claimed r =>
    cases r with
    | ok c =>
      cases c with
      | leased l => exact hmap [l]
      | refused r => rfl
    | error e => rfl
  | enqueued r => cases r <;> rfl
  | listed r => cases r <;> rfl
  | done r => rfl
  | counted r => rfl
  | verdict r => rfl

theorem Call.presents_rename (c : Call) : c.rename.presents = c.presents.map OpLease.rename := by
  cases c <;> rfl

/-! ## The row of a cell -/

/-- The row the durable store keeps for a cell. -/
def rowOf (c : OpCell) : OpRow where
  account := c.account
  kind := some c.op.kind
  idempotencyKey := c.op.idempotencyKey
  resourceKey := c.op.resourceKey
  dependsOn := c.op.dependsOn.map rowid
  state := c.state
  token := c.token
  leaseExpiry := c.leaseExpiry
  attempts := c.attempts
  nextAttemptAt := c.nextAttemptAt
  failureClass := c.failureClass
  detail := c.detail
  handedOver := c.handedOver
  keywordEdit := c.op.keywordEdit

def OpCell.listed (c : OpCell) : Bool := staysListed (some c.op.kind) c.state

variable (c : OpCell)

theorem outstanding_rowOf : (rowOf c).outstanding = c.listed := by
  unfold OpRow.outstanding OpCell.listed staysListed rowOf
  cases c.state <;> simp [PendingOpState.isTerminal]

theorem isDead_rowOf (now : UtcDateTime) : (rowOf c).isDead now = c.isDead now := rfl

theorem interrupted_rowOf : (rowOf c).interrupted = c.interrupted := rfl

theorem recorded_rowOf (outcome : PendingOutcome) (now : UtcDateTime) :
    (rowOf c).recorded outcome now = c.recorded outcome now := rfl

theorem view_rowOf (now : UtcDateTime) : (rowOf c).view now = c.view now := rfl

theorem queuedRow_rename (account : AccountId) (op : PendingOp) :
    Sqlite.queuedRow account (PendingOp.rename op) = rowOf (OpCell.queued account op) := rfl

/-! ## What can be read back -/

/-- The instants of a cell are from the year 0 on. -/
structure OpCell.Dated (c : OpCell) : Prop where
  lease : ∀ t ∈ c.leaseExpiry, Written t
  due : ∀ t ∈ c.nextAttemptAt, Written t

variable {c} in
theorem OpCell.dated_of_none (hlease : c.leaseExpiry = none) (hdue : c.nextAttemptAt = none) : c.Dated :=
  ⟨by simp [hlease], by simp [hdue]⟩

variable {c} in
theorem parseOpRow_rowOf (h : c.Dated) : Sqlite.parseOpRow (rowOf c) = .ok (rowOf c) := by
  have hlease : parseOptInstant (rowOf c).leaseExpiry = .ok c.leaseExpiry := parseOptInstant_written h.lease
  have hdue : parseOptInstant (rowOf c).nextAttemptAt = .ok c.nextAttemptAt := parseOptInstant_written h.due
  unfold Sqlite.parseOpRow
  simp only [hlease, hdue]
  rfl

section Dated

variable {now expiry : UtcDateTime}

theorem written_checkedAdd {span : Nat} (hnow : Written now) (h : now.checkedAdd span = some expiry) :
    Written expiry := by
  refine hnow.mono ?_
  unfold UtcDateTime.checkedAdd at h
  split at h
  · cases h
    exact Nat.le_add_right _ _
  · cases h

theorem written_expiryAfter {ttl : Nat} (hnow : Written now) (h : expiryAfter now ttl = .ok expiry) : Written expiry := by
  unfold expiryAfter at h
  split at h
  · rename_i hadd
    cases h
    exact written_checkedAdd hnow hadd
  · simp at h

variable {kind : Option PendingOpKind} {attempts : Nat} {outcome : PendingOutcome} {r : Recorded} {c c' : OpCell}

theorem recordOutcome_due (hnow : Written now) (h : recordOutcome kind attempts outcome now = .ok r) :
    ∀ t ∈ r.nextAttemptAt, Written t := by
  cases outcome with
  | succeeded key =>
    cases h
    exact fun t ht => absurd ht (by simp)
  | failed cls retryAfter =>
    simp only [recordOutcome] at h
    split at h
    · split at h
      · rename_i hadd
        cases h
        intro t ht
        rw [← Option.some.inj ht]
        exact written_checkedAdd hnow hadd
      · simp at h
    · cases h
      exact fun t ht => absurd ht (by simp)
  | needsConfirmation detail =>
    cases h
    exact fun t ht => absurd ht (by simp)

theorem OpCell.record_dated (hnow : Written now) (h : c.record outcome now = .ok c') : c'.Dated := by
  obtain ⟨r, hr, rfl⟩ := OpCell.record_eq_ok.mp h
  exact ⟨fun t ht => absurd ht (by simp), recordOutcome_due hnow hr⟩

theorem OpCell.recover_dated (hnow : Written now) (h : c.recover now = .ok c') : c'.Dated := by
  obtain ⟨d, hd, rfl⟩ := OpCell.recover_eq_ok.mp h
  exact ⟨(OpCell.record_dated hnow hd).lease, (OpCell.record_dated hnow hd).due⟩

end Dated

/-! ## The relation -/

structure Refines (s : Mem) (db : Sqlite) : Prop where
  rows : db.pendingOp = s.ops.renumber rowOf
  payload : ∀ id c, s.ops.get? id = some c → c.listed = true →
    db.payload.get? (rowid id) = some c.op.payload
  keyed : ∀ account key id, s.idempotency.lookup (account, key) = some id ↔
    ∃ c, s.ops.get? id = some c ∧ c.account = account ∧ c.op.idempotencyKey = key
  numbered : s.ops.keys = List.range s.nextOp
  named : ∀ id c, s.ops.get? id = some c → ∀ d ∈ c.op.dependsOn, rowid d < 9223372036854775808
  dated : ∀ id c, s.ops.get? id = some c → c.Dated
  parsed : ∀ id c, s.ops.get? id = some c → payloadRefused c.op.payload = none

theorem refines_new : Refines Mem.new Sqlite.new := by
  have hnone : ∀ id c, Mem.new.ops.get? id ≠ some c := by simp [Mem.new]
  refine ⟨rfl, fun id c hc => absurd hc (hnone id c), ?_, rfl, fun id c hc => absurd hc (hnone id c),
    fun id c hc => absurd hc (hnone id c), fun id c hc => absurd hc (hnone id c)⟩
  intro account key id
  simp [Mem.new]

/-- A rewritten cell keeps who it is and what it carries, and does not come back to the queue.  Its instants can
be read back where those it had can. -/
def Rewrite (c c' : OpCell) : Prop :=
  c'.account = c.account ∧ c'.op = c.op ∧ (c'.listed = true → c.listed = true) ∧ (c.Dated → c'.Dated)

theorem Rewrite.refl : Rewrite c c := ⟨rfl, rfl, id, id⟩

namespace Refines

variable {s : Mem} {db : Sqlite} {id : PendingOpId} {c c' : OpCell}

theorem get? (h : Refines s db) (id : PendingOpId) : db.pendingOp.get? (rowid id) = (s.ops.get? id).map rowOf := by
  rw [h.rows]
  exact get?_renumber s.ops rowOf id

variable {db' : Sqlite}

theorem rewrite (h : Refines s db) {ops : Ops}
    (hops : Related (fun _ => Rewrite) s.ops ops) (hkeys : ops.keys = s.ops.keys)
    (hrows : db'.pendingOp = ops.renumber rowOf)
    (hpay : ∀ id c, ops.get? id = some c → c.listed = true → db'.payload.get? (rowid id) = db.payload.get? (rowid id)) :
    Refines { s with ops } db' := by
  refine ⟨hrows, ?_, ?_, hkeys.trans h.numbered, ?_, ?_, ?_⟩
  · intro id c' hc' hl
    obtain ⟨c, hc, hacc, hop, hlist, -⟩ := hops.of_some hc'
    rw [hpay id c' hc' hl, hop]
    exact h.payload id c hc (hlist hl)
  · intro account key id
    rw [h.keyed account key id]
    constructor
    · rintro ⟨c, hc, rfl, rfl⟩
      obtain ⟨c', hc', hacc, hop, -⟩ := hops.some_of_some hc
      exact ⟨c', hc', hacc, by rw [hop]⟩
    · rintro ⟨c', hc', rfl, rfl⟩
      obtain ⟨c, hc, hacc, hop, -⟩ := hops.of_some hc'
      exact ⟨c, hc, hacc.symm, by rw [hop]⟩
  · intro id c' hc' d hd
    obtain ⟨c, hc, -, hop, -⟩ := hops.of_some hc'
    rw [hop] at hd
    exact h.named id c hc d hd
  · intro id c' hc'
    obtain ⟨c, hc, -, -, -, hdated⟩ := hops.of_some hc'
    exact hdated (h.dated id c hc)
  · intro id c' hc'
    obtain ⟨c, hc, -, hop, -⟩ := hops.of_some hc'
    rw [hop]
    exact h.parsed id c hc

variable {f : OpRow → OpRow}

theorem insert (h : Refines s db) (hc : s.ops.get? id = some c) (hr : Rewrite c c') (hf : f (rowOf c) = rowOf c')
    (hrows : db'.pendingOp = db.pendingOp.modify (rowid id) f)
    (hpay : ∀ j, (j = id → c'.listed = true) → db'.payload.get? (rowid j) = db.payload.get? (rowid j)) :
    Refines { s with ops := s.ops.insert id c' } db' := by
  refine h.rewrite (Related.insert (fun _ => Rewrite.refl) hc hr) (keys_insert hc) ?_ ?_
  · rw [hrows, h.rows]
    exact renumber_modify hc hf
  · intro j d hd hl
    apply hpay
    intro hj
    subst hj
    rw [get?_insert, if_pos rfl, Option.some.injEq] at hd
    rw [hd]
    exact hl

theorem update (h : Refines s db) (hc : s.ops.get? id = some c) (hr : Rewrite c c') (hf : f (rowOf c) = rowOf c') :
    Refines { s with ops := s.ops.insert id c' } (db.update (rowid id) f) :=
  h.insert hc hr hf rfl fun _ _ => rfl

theorem updateState (h : Refines s db) (hc : s.ops.get? id = some c) (hr : Rewrite c c') (hf : f (rowOf c) = rowOf c') :
    Refines { s with ops := s.ops.insert id c' } (db.updateState (rowid id) f) := by
  refine h.insert hc hr hf rfl ?_
  intro j hj
  have hrow : (db.pendingOp.modify (rowid id) f).get? (rowid id) = some (rowOf c') := by
    rw [get?_modify_self, h.get?, hc]
    exact congrArg some hf
  unfold Sqlite.updateState
  simp only [hrow, Option.any_some, outstanding_rowOf]
  by_cases hji : j = id
  · rw [hj hji]
    rfl
  · split
    · have hne : rowid j ≠ rowid id := fun e => hji (Nat.succ.inj e)
      exact get?_filterRows_of_true _ (by intro a; simpa using hne)
    · rfl

theorem sweep (h : Refines s db) (now : UtcDateTime) : Refines { s with ops := Mem.sweep s.ops now } db := by
  have hrow : ∀ c : OpCell, rowOf (if (c.state.isTerminal && c.settledAt.isNone) = true then
      { c with settledAt := some now } else c) = rowOf c := by
    intro c
    split <;> rfl
  refine h.rewrite (Related.mapRows _ ?_) ?_ ?_ ?_
  · intro id c
    split
    · exact ⟨rfl, rfl, fun hl => hl, fun hd => ⟨hd.lease, hd.due⟩⟩
    · exact Rewrite.refl c
  · simp [Mem.sweep, keys, mapRows]
  · rw [h.rows]
    apply ext_get?
    intro j
    cases j with
    | zero => simp
    | succ j =>
      rw [get?_renumber, get?_renumber, Mem.sweep, get?_mapRows]
      cases s.ops.get? j with
      | none => rfl
      | some c => exact congrArg some (hrow c).symm
  · intro id c _ _
    rfl

end Refines
end Outbox
end SyncEngine
