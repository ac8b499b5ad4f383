import SyncEngine.Outbox.SqliteRows

/-!
# Settled rows

Every call but a late report leaves a settled row's state, token and kind as they are, and grants no lease on it.
-/

namespace SyncEngine
namespace Outbox

def SettledRow (r : OpRow) : Prop :=
  r.state = .succeeded ∨ r.state = .cancelled ∨ (r.state = .failed ∧ r.kind ≠ some .mailSubmit)

/-- What a settled row keeps. -/
structure SameSettled (r r' : OpRow) : Prop where
  state : r'.state = r.state
  token : r'.token = r.token
  kind : r'.kind = r.kind

/-- The call reports under the token the row carries, or reconciles it in the withdrawn or failed state it is in. -/
def LateRow (e : Entry) (id : Nat) (r : OpRow) : Prop :=
  (∃ l outcome, e.call = .mark l outcome ∧ l.op = id ∧ l.token = r.token) ∨
  (∃ recs rec, e.call = .reconcile recs ∧ rec ∈ recs ∧ rec.op = id ∧ r.state ≠ .succeeded ∧ rec.expected = r.state)

/-- The row `id` still reads as the settled row `r`. -/
def Rests (id : Nat) (r : OpRow) (t : Table OpRow) : Prop := ∃ q, t.get? id = some q ∧ SameSettled r q

variable {id j : Nat} {r q : OpRow} {t t' : Table OpRow} {now : UtcDateTime}

theorem SettledRow.state_ne (h : SettledRow r) : r.state ≠ .pending ∧ r.state ≠ .inFlight ∧ r.state ≠ .needsConfirmation := by
  rcases h with hs | hs | ⟨hs, -⟩ <;> simp [hs]

theorem SettledRow.of_same (h : SettledRow r) (hq : SameSettled r q) : SettledRow q := by
  unfold SettledRow
  rw [hq.state, hq.kind]
  exact h

theorem SettledRow.refused (h : SettledRow r) : Sqlite.refusal r ≠ none := by
  rcases h with hs | hs | ⟨hs, hk⟩ <;> simp [Sqlite.refusal, staysListed, PendingOpState.isTerminal, *]

namespace Rests

theorem of_other (hset : SettledRow r) (h : Rests id r t) (hopen : ∀ q, t.get? j = some q → ¬ SettledRow q)
    (hother : id ≠ j → t'.get? id = t.get? id) : Rests id r t' := by
  obtain ⟨q, hq, hsame⟩ := h
  by_cases hj : id = j
  · exact absurd (hset.of_same hsame) (hopen q (hj ▸ hq))
  · exact ⟨q, (hother hj).trans hq, hsame⟩

theorem modify (hset : SettledRow r) (h : Rests id r t) (hopen : ∀ q, t.get? j = some q → ¬ SettledRow q)
    (f : OpRow → OpRow) : Rests id r (t.modify j f) :=
  h.of_other hset hopen fun hj => Table.get?_modify_ne _ _ hj

theorem claimed (hset : SettledRow r) (h : Rests id r t) {ls : List LeasedPendingOp} (hc : Claimed now t t' ls) :
    Rests id r t' ∧ ∀ g ∈ ls, g.lease.op ≠ id := by
  obtain ⟨q, hq, hsame⟩ := h
  have hne : ∀ g ∈ ls, g.id ≠ id := by
    intro g hg hid
    obtain ⟨w, hw⟩ := hc.granted g hg
    have hrow := hw.row
    rw [hid, hq, Option.some.injEq] at hrow
    exact hset.state_ne.1 (hsame.state.symm.trans (hrow ▸ hw.waiting))
  refine ⟨⟨q, (hc.kept id hne).trans hq, hsame⟩, ?_⟩
  intro g hg
  obtain ⟨w, hw⟩ := hc.granted g hg
  rw [hw.op]
  exact hne g hg

end Rests

namespace Sqlite

variable {db db' : Sqlite} {op : OpRow} {n : PendingOpId} {account : AccountId} {lease : OpLease}
  {outcome : PendingOutcome} {ops : List (Nat × OpRow)}

theorem record_other (hid : id ≠ j) (h : db.record j op now outcome = .ok db') :
    db'.pendingOp.get? id = db.pendingOp.get? id := by
  unfold record at h
  cases hrec : op.recorded outcome now with
  | error e => rw [hrec] at h; cases h
  | ok recorded =>
    rw [hrec] at h
    cases h
    exact Table.get?_modify_ne _ _ hid

theorem recover_rests (hset : SettledRow r) (hr : Rests id r db.pendingOp)
    (hopen : ∀ q, db.pendingOp.get? j = some q → ¬ SettledRow q) (h : db.recover j op now = .ok db') :
    Rests id r db'.pendingOp :=
  hr.of_other hset hopen (recover_row h).1

theorem recoverAll_other (hne : ∀ o ∈ ops, o.1 ≠ id) (h : recoverAll now ops db = .ok db') :
    db'.pendingOp.get? id = db.pendingOp.get? id := by
  induction ops generalizing db with
  | nil =>
    cases h
    rfl
  | cons o rest ih =>
    obtain ⟨j, op⟩ := o
    rw [recoverAll] at h
    split at h
    · cases h
    · rename_i mid hmid
      rw [ih (fun o ho => hne o (List.mem_cons_of_mem _ ho)) h]
      exact (recover_row hmid).1 (hne (j, op) List.mem_cons_self).symm

theorem inFlightRows_ne (hset : SettledRow r) (hr : Rests id r db.pendingOp) {of : Option AccountId} :
    ∀ o ∈ db.inFlightRows of, o.1 ≠ id := by
  rintro ⟨j, q⟩ ho rfl
  obtain ⟨hmem, hs⟩ := List.mem_filter.mp ho
  obtain ⟨q', hq', hsame⟩ := hr
  rw [(db.pendingOp.get?_eq_some_iff).mpr hmem, Option.some.injEq] at hq'
  simp only [Bool.and_eq_true, decide_eq_true_eq] at hs
  exact hset.state_ne.2.1 (hsame.state.symm.trans (hq' ▸ hs.1))

theorem recoverDead_rests (hset : SettledRow r) (hr : Rests id r db.pendingOp)
    (h : db.recoverDead account now = .ok db') : Rests id r db'.pendingOp := by
  obtain ⟨q, hq, hsame⟩ := hr
  refine ⟨q, (recoverAll_other ?_ (recoverDead_ok h)).trans hq, hsame⟩
  exact fun o ho => inFlightRows_ne hset ⟨q, hq, hsame⟩ o (List.mem_filter.mp ho).1

theorem recoverInterrupted_rests (hset : SettledRow r) (hr : Rests id r db.pendingOp) :
    Rests id r (db.recoverInterrupted now).1.pendingOp := by
  unfold recoverInterrupted
  split
  · exact hr
  rename_i ops hload
  refine transact_fst (P := fun d => Rests id r d.pendingOp) hr ?_
  intro mid a hbody
  cases hrec : recoverAll now ops db with
  | error e => rw [hrec] at hbody; cases hbody
  | ok recovered =>
    rw [hrec] at hbody
    cases hbody
    obtain ⟨q, hq, hsame⟩ := hr
    refine ⟨q, (recoverAll_other ?_ hrec).trans hq, hsame⟩
    rw [parseOpRows_ok hload]
    exact inFlightRows_ne hset ⟨q, hq, hsame⟩

theorem claims_rest (hset : SettledRow r) (hr : Rests id r db.pendingOp) {ls : List LeasedPendingOp}
    (h : db' = db ∧ ls = [] ∨ ∃ ready, db.recoverDead account now = .ok ready ∧ Claimed now ready.pendingOp db'.pendingOp ls) :
    Rests id r db'.pendingOp ∧ ∀ g ∈ ls, g.lease.op ≠ id := by
  rcases h with ⟨rfl, rfl⟩ | ⟨ready, hready, hclaim⟩
  · exact ⟨hr, by simp⟩
  · exact (recoverDead_rests hset hr hready).claimed hset hclaim

theorem mark_rests (hset : SettledRow r) (hr : Rests id r db.pendingOp) (hlate : lease.op = id → lease.token ≠ r.token) :
    Rests id r (db.mark lease outcome now).1.pendingOp := by
  unfold mark
  split
  · exact hr
  rename_i i hi
  obtain rfl := opIdToI64_ok hi
  split
  · exact hr
  · exact hr
  rename_i op hload
  split
  · rename_i hadm
    refine transact_fst (P := fun d => Rests id r d.pendingOp) hr ?_
    intro mid a hbody
    cases hrec : db.record lease.op op now outcome with
    | error e => rw [hrec] at hbody; cases hbody
    | ok recorded =>
      rw [hrec] at hbody
      cases hbody
      obtain ⟨q, hq, hsame⟩ := hr
      -- an admitted lease carries the op's token, unless the op awaits confirmation
      by_cases hid : id = lease.op
      · subst hid
        obtain rfl := Option.some.inj ((loadOneOp_some hload).1.symm.trans hq)
        simp only [admits, Bool.or_eq_true, Bool.and_eq_true, decide_eq_true_eq] at hadm
        rcases hadm with ht | ⟨hs, -⟩
        · exact absurd (ht.symm.trans hsame.token) (hlate rfl)
        · exact absurd (hsame.state.symm.trans hs) hset.state_ne.2.2
      · exact ⟨q, (record_other hid hrec).trans hq, hsame⟩
  · exact hr

theorem held_open {l : OpLease} (h : db.held l j = some op) : ∀ q, db.pendingOp.get? j = some q → ¬ SettledRow q := by
  intro q hq hset
  simp only [held, Option.filter_eq_some_iff, Bool.and_eq_true, decide_eq_true_eq] at h
  obtain rfl := Option.some.inj (h.1.symm.trans hq)
  exact hset.state_ne.2.1 h.2.2

theorem handOver_rests (hset : SettledRow r) (hr : Rests id r db.pendingOp) :
    Rests id r (db.handOver lease).1.pendingOp := by
  unfold handOver
  split
  · exact hr
  split
  · exact hr
  · rename_i op hheld
    exact hr.modify hset (held_open hheld) _

theorem renew_rests (hset : SettledRow r) (hr : Rests id r db.pendingOp) {ttl : Nat} :
    Rests id r (db.renew lease ttl now).1.pendingOp := by
  unfold renew
  split
  · exact hr
  split
  · exact hr
  split
  · exact hr
  · rename_i op hheld
    exact hr.modify hset (held_open hheld) _

theorem hostVerb_rests (hset : SettledRow r) (hr : Rests id r db.pendingOp)
    {act : Sqlite → Nat → OpRow → Sqlite × Option OpRejection}
    (hrefuse : ∀ mid op, ¬ SettledRow op ∨ (act mid n op).1 = mid)
    (hother : ∀ mid op, id ≠ n → (act mid n op).1.pendingOp.get? id = mid.pendingOp.get? id) :
    Rests id r (db.hostVerb account n now act).1.pendingOp := by
  refine hostVerb_fst (P := fun d => Rests id r d.pendingOp) hr ?_ ?_
  · intro op mid hop hdead hrec
    refine recover_rests hset hr ?_ hrec
    intro q hq hq'
    obtain rfl := Option.some.inj (hop.symm.trans hq)
    simp only [OpRow.isDead, Bool.and_eq_true, decide_eq_true_eq] at hdead
    exact hq'.state_ne.2.1 hdead.1
  · intro mid op hmid hop
    rcases hrefuse mid op with hopen | hsame
    · exact hmid.of_other hset (fun q hq => (Option.some.inj (hop.symm.trans hq)) ▸ hopen) (hother mid op)
    · rw [hsame]
      exact hmid

theorem cancel_rests (hset : SettledRow r) (hr : Rests id r db.pendingOp) :
    Rests id r (db.cancel account n now).1.pendingOp := by
  refine hostVerb_rests hset hr ?_ ?_
  · intro mid op
    unfold cancelAct
    split
    · exact .inr rfl
    · rename_i hnone
      exact .inl fun h => h.refused hnone
  · intro mid op hid
    unfold cancelAct
    split
    · rfl
    · exact Table.get?_modify_ne _ _ hid

theorem retryNow_rests (hset : SettledRow r) (hr : Rests id r db.pendingOp) :
    Rests id r (db.retryNow account n now).1.pendingOp := by
  refine hostVerb_rests hset hr ?_ ?_
  · intro mid op
    unfold retryNowAct
    split
    · exact .inr rfl
    · rename_i hnone
      exact .inl fun h => h.refused hnone
  · intro mid op hid
    unfold retryNowAct
    split
    · rfl
    · split <;> exact Table.get?_modify_ne _ _ hid

theorem confirm_rests (hset : SettledRow r) (hr : Rests id r db.pendingOp) {confirmation : Confirmation} :
    Rests id r (db.confirm account n confirmation now).1.pendingOp := by
  refine hostVerb_rests hset hr ?_ ?_
  · intro mid op
    unfold confirmAct
    split
    · rename_i hs
      exact .inl fun h => h.state_ne.2.2 hs
    · exact .inr rfl
    · exact .inr rfl
  · intro mid op hid
    unfold confirmAct
    split
    · split <;> exact Table.get?_modify_ne _ _ hid
    · rfl
    · rfl

theorem reconcileOp_rests (hset : SettledRow r) (hr : Rests id r db.pendingOp) {rec : ReconciledOp} {b : Bool}
    (hlate : rec.op = id → r.state ≠ .succeeded → rec.expected ≠ r.state)
    (h : db.reconcileOp rec now = .ok (db', b)) : Rests id r db'.pendingOp := by
  unfold reconcileOp at h
  split at h
  · cases h
  rename_i i hi
  obtain rfl := opIdToI64_ok hi
  dsimp only at h
  split at h
  · cases h
  rename_i mid hmid
  have hrest : Rests id r mid.pendingOp := by
    split at hmid
    · exact recoverDead_rests hset hr hmid
    · cases hmid
      exact hr
  split at h
  · rename_i hany
    cases h
    obtain ⟨q, hq, hsame⟩ := hrest
    by_cases hid : id = rec.op
    · subst hid
      simp only [hq, Option.any_some, decide_eq_true_eq] at hany
      -- what is expected of a settled op is what it is, so it succeeded and is marked so again
      have hsucc : r.state = .succeeded := by
        by_contra hne
        exact hlate rfl hne (hany.symm.trans hsame.state)
      refine ⟨{ q with state := .succeeded, leaseExpiry := none }, ?_, hsucc.symm, hsame.token, hsame.kind⟩
      rw [updateState_pendingOp, Table.get?_modify_self, hq]
      rfl
    · exact ⟨q, (Table.get?_modify_ne _ _ hid).trans hq, hsame⟩
  · cases h
    exact hrest

theorem reconcileLoop_rests (hset : SettledRow r) (hr : Rests id r db.pendingOp) {recs : List ReconciledOp} {n m : Nat}
    (hlate : ∀ rec ∈ recs, rec.op = id → r.state ≠ .succeeded → rec.expected ≠ r.state)
    (h : reconcileLoop now recs db n = .ok (db', m)) : Rests id r db'.pendingOp := by
  induction recs generalizing db n with
  | nil =>
    cases h
    exact hr
  | cons rec rest ih =>
    have hfirst := hlate rec List.mem_cons_self
    have hrest := fun rec hrec => hlate rec (List.mem_cons_of_mem _ hrec)
    rw [reconcileLoop] at h
    split at h
    · cases h
    · rename_i mid hmid
      exact ih (reconcileOp_rests hset hr hfirst hmid) hrest h
    · rename_i mid hmid
      exact ih (reconcileOp_rests hset hr hfirst hmid) hrest h

theorem enqueue_rests (hr : Rests id r db.pendingOp) {new : PendingOp} :
    Rests id r (db.enqueue account new).1.pendingOp := by
  unfold enqueue
  split
  · exact hr
  · obtain ⟨q, hq, hsame⟩ := hr
    refine ⟨q, ?_, hsame⟩
    have hne : id ≠ db.pendingOp.nextRowid := by
      rintro rfl
      rw [Table.get?_nextRowid] at hq
      cases hq
    exact (Table.get?_insert _ _ _ _).trans ((if_neg hne).trans hq)

theorem run_rests {e : Entry} (hset : SettledRow r) (hr : Rests id r db.pendingOp) (hlate : ¬ LateRow e id r)
    (h : run db e.call e.now = (db', e.reply)) :
    Rests id r db'.pendingOp ∧ ∀ g ∈ e.reply.granted, g.lease.op ≠ id := by
  obtain ⟨call, now, reply⟩ := e
  simp only at h
  cases call with
  | enqueue account op => cases h; exact ⟨enqueue_rests hr, by simp [Reply.granted]⟩
  | claimOps account req limit => cases h; exact claims_rest hset hr (claim_cases rfl)
  | claimOne account id req => cases h; exact claims_rest hset hr (claimOne_cases rfl)
  | handOver lease => cases h; exact ⟨handOver_rests hset hr, by simp [Reply.granted]⟩
  | renew lease ttl => cases h; exact ⟨renew_rests hset hr, by simp [Reply.granted]⟩
  | mark lease outcome =>
    cases h
    refine ⟨mark_rests hset hr ?_, by simp [Reply.granted]⟩
    exact fun hop ht => hlate (.inl ⟨lease, outcome, rfl, hop, ht⟩)
  | recoverInterrupted => cases h; exact ⟨recoverInterrupted_rests hset hr, by simp [Reply.granted]⟩
  | cancel account id => cases h; exact ⟨cancel_rests hset hr, by simp [Reply.granted]⟩
  | retryNow account id => cases h; exact ⟨retryNow_rests hset hr, by simp [Reply.granted]⟩
  | confirm account id confirmation => cases h; exact ⟨confirm_rests hset hr, by simp [Reply.granted]⟩
  | reconcile recs =>
    cases h
    refine ⟨transact_fst (P := fun d => Rests id r d.pendingOp) hr ?_, by simp [Reply.granted]⟩
    intro mid n hloop
    refine reconcileLoop_rests hset hr ?_ hloop
    exact fun rec hrec hop hs hexp => hlate (.inr ⟨recs, rec, rfl, hrec, hop, hs, hexp⟩)
  | list account => cases h; exact ⟨hr, by simp [Reply.granted]⟩

end Sqlite
end Outbox
end SyncEngine
