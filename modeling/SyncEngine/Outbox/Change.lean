import SyncEngine.Outbox.Mem

/-!
# One op as a state machine

Whatever a store call does to an op short of leasing it, it does by a short sequence of changes of nine kinds.
`Changes` says when each one may happen and what it leaves.  `Moves` says of a whole table that every op goes through
changes the call allows and that none appears or disappears.  The verbs are shown to be moves, and the properties of
runs are then proved of one change at a time.
-/

namespace SyncEngine
namespace Outbox

inductive Change
  | recover
  | mark (l : OpLease) (outcome : PendingOutcome)
  | handOver (l : OpLease)
  | renew (expiry : UtcDateTime)
  | cancel
  | retryNow
  | confirm (confirmation : Confirmation)
  | reconcile (expected : PendingOpState)
  | stamp

/-- The changes an op may go through at `now`, with what each leaves. -/
inductive Changes (now : UtcDateTime) : OpCell → Change → OpCell → Prop
  | recover {c c' : OpCell} :
      c.state = .inFlight → c.recover now = .ok c' → Changes now c .recover c'
  | mark {c c' : OpCell} {l : OpLease} {outcome : PendingOutcome} :
      Mem.admits c l = true → c.record outcome now = .ok c' → Changes now c (.mark l outcome) c'
  | handOver {c : OpCell} {l : OpLease} :
      c.token = l.token → c.state = .inFlight →
      Changes now c (.handOver l) { c with handedOver := some l.token }
  | renew {c : OpCell} {expiry : UtcDateTime} :
      c.state = .inFlight → Changes now c (.renew expiry) { c with leaseExpiry := some expiry }
  | cancel {c : OpCell} :
      Mem.hostRefusal c = none → Changes now c .cancel (Mem.cancelAct c).1
  | retryNow {c : OpCell} :
      Mem.hostRefusal c = none → Changes now c .retryNow (Mem.retryNowAct c).1
  | confirm {c : OpCell} {confirmation : Confirmation} :
      c.state = .needsConfirmation →
      Changes now c (.confirm confirmation) (Mem.confirmAct confirmation c).1
  | reconcile {c : OpCell} {expected : PendingOpState} :
      c.state = expected → Changes now c (.reconcile expected) (Mem.settleDelivered c)
  | stamp {c : OpCell} :
      c.state.isTerminal = true → Changes now c .stamp { c with settledAt := some now }

/-! ## Recording and recovering -/

theorem map_eq_ok {α β : Type} {x : Result α} {f : α → β} {b : β} : x.map f = .ok b ↔ ∃ a, x = .ok a ∧ f a = b := by
  cases x with
  | error e => simp [Except.map]
  | ok a => simp [Except.map]

namespace OpCell

variable {c c' : OpCell} {outcome : PendingOutcome} {now : UtcDateTime}

theorem record_eq_ok : c.record outcome now = .ok c' ↔ ∃ r, c.recorded outcome now = .ok r ∧ { c with
      leaseExpiry := none, state := r.state, attempts := r.attempts
      nextAttemptAt := r.nextAttemptAt, failureClass := r.failureClass, detail := r.detail
      handedOver := if r.keepsHandOver then c.handedOver else none } = c' :=
  map_eq_ok

theorem recover_eq_ok : c.recover now = .ok c' ↔
    ∃ d, c.record c.interrupted now = .ok d ∧ { d with token := d.token + 1 } = c' :=
  map_eq_ok

theorem record_frame (h : c.record outcome now = .ok c') :
    c'.account = c.account ∧ c'.op = c.op ∧ c'.token = c.token := by
  obtain ⟨r, -, rfl⟩ := record_eq_ok.mp h
  exact ⟨rfl, rfl, rfl⟩

theorem record_lands (h : c.record outcome now = .ok c') : ∃ keeps, Lands outcome c'.state keeps ∧
      c'.handedOver = if keeps then c.handedOver else none := by
  obtain ⟨r, hr, rfl⟩ := record_eq_ok.mp h
  exact ⟨r.keepsHandOver, recordOutcome_lands hr, rfl⟩

theorem record_not_inFlight (h : c.record outcome now = .ok c') : c'.state ≠ .inFlight := by
  obtain ⟨keeps, hl, -⟩ := record_lands h
  exact hl.state_ne.1

theorem recover_frame (h : c.recover now = .ok c') : c'.account = c.account ∧ c'.op = c.op ∧ c'.token = c.token + 1 := by
  obtain ⟨d, hd, rfl⟩ := recover_eq_ok.mp h
  obtain ⟨ha, ho, ht⟩ := record_frame hd
  refine ⟨ha, ho, ?_⟩
  show d.token + 1 = _
  rw [ht]

theorem recover_not_inFlight (h : c.recover now = .ok c') : c'.state ≠ .inFlight := by
  obtain ⟨d, hd, rfl⟩ := recover_eq_ok.mp h
  show d.state ≠ _
  exact record_not_inFlight hd

end OpCell

theorem hostRefusal_eq_none {c : OpCell} (h : Mem.hostRefusal c = none) :
    c.state = .pending ∨ (c.state = .failed ∧ c.op.kind = .mailSubmit) := by
  unfold Mem.hostRefusal at h
  split at h
  · rename_i hs; exact Or.inl hs
  · simp at h
  · simp at h
  · rename_i hs
    split at h
    · rename_i hl
      refine Or.inr ⟨hs, ?_⟩
      simpa [staysListed, hs, PendingOpState.isTerminal] using hl
    · simp at h
  · simp at h
  · simp at h

theorem cancelAct_of_none {c : OpCell} (h : Mem.hostRefusal c = none) : Mem.cancelAct c =
    ({ c with token := c.token + 1, state := .cancelled, leaseExpiry := none, nextAttemptAt := none }, none) := by
  simp only [Mem.cancelAct, h]

theorem retryNowAct_of_none {c : OpCell} (h : Mem.hostRefusal c = none) : Mem.retryNowAct c =
    ({ if c.state = .failed then c.rearm else c with nextAttemptAt := none }, none) := by
  simp only [Mem.retryNowAct, h]

theorem retryNowAct_state {c : OpCell} (h : Mem.hostRefusal c = none) : (Mem.retryNowAct c).1.state = .pending := by
  rw [retryNowAct_of_none h]
  rcases hostRefusal_eq_none h with hs | ⟨hs, -⟩
  · simp [hs]
  · simp [hs, OpCell.rearm]

/-! ## What every change keeps -/

section Frame

variable {now : UtcDateTime} {c c' : OpCell} {x : Change}

theorem Changes.frame (h : Changes now c x c') : c'.account = c.account ∧ c'.op = c.op ∧ c.token ≤ c'.token := by
  cases h with
  | recover _ hr =>
    obtain ⟨ha, ho, ht⟩ := OpCell.recover_frame hr
    exact ⟨ha, ho, by omega⟩
  | mark _ hr =>
    obtain ⟨ha, ho, ht⟩ := OpCell.record_frame hr
    exact ⟨ha, ho, by omega⟩
  | cancel hn =>
    rw [cancelAct_of_none hn]
    exact ⟨rfl, rfl, Nat.le_succ _⟩
  | retryNow hn =>
    rw [retryNowAct_of_none hn]
    split
    · exact ⟨rfl, rfl, Nat.le_succ _⟩
    · exact ⟨rfl, rfl, Nat.le_refl _⟩
  | @confirm k hs =>
    simp only [Mem.confirmAct, hs]
    cases k with
    | delivered => exact ⟨rfl, rfl, Nat.le_succ _⟩
    | notDelivered => exact ⟨rfl, rfl, Nat.le_succ _⟩
  | handOver _ _ => exact ⟨rfl, rfl, Nat.le_refl _⟩
  | renew _ => exact ⟨rfl, rfl, Nat.le_refl _⟩
  | reconcile _ => exact ⟨rfl, rfl, Nat.le_refl _⟩
  | stamp _ => exact ⟨rfl, rfl, Nat.le_refl _⟩

theorem Changes.inFlight (h : Changes now c x c') (hs : c'.state = .inFlight) : c.state = .inFlight := by
  cases h with
  | recover _ hr => exact absurd hs (OpCell.recover_not_inFlight hr)
  | mark _ hr => exact absurd hs (OpCell.record_not_inFlight hr)
  | cancel hn => rw [cancelAct_of_none hn] at hs; simp at hs
  | retryNow hn => rw [retryNowAct_state hn] at hs; simp at hs
  | @confirm k hc =>
    simp only [Mem.confirmAct, hc] at hs
    cases k with
    | delivered => simp at hs
    | notDelivered => exact absurd hs (by simp [OpCell.rearm])
  | handOver _ hc => exact hc
  | renew hc => exact hc
  | reconcile _ => exact absurd hs (by simp [Mem.settleDelivered])
  | stamp _ => exact hs

end Frame

/-! ## Sequences of changes -/

/-- `c` reaches `c'` through changes that `P` allows. -/
def Path (now : UtcDateTime) (P : Change → Prop) (c c' : OpCell) : Prop :=
  ∃ xs, Run (Changes now) c xs c' ∧ ∀ x ∈ xs, P x

namespace Path

variable {now : UtcDateTime} {P : Change → Prop} {c c' c'' : OpCell} {x : Change}

theorem refl (c : OpCell) : Path now P c c := ⟨[], .nil c, by simp⟩

theorem single (h : Changes now c x c') (hx : P x) : Path now P c c' := ⟨[x], .cons h (.nil c'), by simpa using hx⟩

theorem trans (h : Path now P c c') (h' : Path now P c' c'') : Path now P c c'' := by
  obtain ⟨xs, hr, hp⟩ := h
  obtain ⟨ys, hr', hp'⟩ := h'
  refine ⟨xs ++ ys, hr.append hr', ?_⟩
  intro x hx
  rcases List.mem_append.mp hx with hx | hx
  · exact hp x hx
  · exact hp' x hx

theorem preserves {K : OpCell → Prop} (hkeep : ∀ c x c', K c → P x → Changes now c x c' → K c')
    (h : Path now P c c') (hc : K c) : K c' := by
  obtain ⟨xs, hr, hp⟩ := h
  exact hr.preserves_of_forall hkeep hp hc

theorem frame (h : Path now P c c') : c'.account = c.account ∧ c'.op = c.op ∧ c.token ≤ c'.token := by
  refine h.preserves (K := fun d => d.account = c.account ∧ d.op = c.op ∧ c.token ≤ d.token) ?_ ⟨rfl, rfl, Nat.le_refl _⟩
  rintro d x d' ⟨ha, ho, ht⟩ - hx
  obtain ⟨ha', ho', ht'⟩ := hx.frame
  exact ⟨ha'.trans ha, ho'.trans ho, Nat.le_trans ht ht'⟩

theorem inFlight (h : Path now P c c') (hs : c'.state = .inFlight) : c.state = .inFlight := by
  by_contra hc
  have hkeep := h.preserves (K := fun d => d.state ≠ .inFlight) (fun d x d' hd _ hx hd' => hd (hx.inFlight hd')) hc
  exact hkeep hs

end Path

/-- Every op of `ops` reaches what `ops'` holds under its id through changes `P` allows it. -/
def Moves (now : UtcDateTime) (P : PendingOpId → Change → Prop) (ops ops' : Ops) : Prop :=
  Table.Related (fun id => Path now (P id)) ops ops'

namespace Moves

variable {now : UtcDateTime} {P Q : PendingOpId → Change → Prop} {ops ops' ops'' : Ops}
  {id : PendingOpId} {c c' : OpCell}

theorem some_of_some (h : Moves now P ops ops') (hc : ops.get? id = some c) :
    ∃ c', ops'.get? id = some c' ∧ Path now (P id) c c' :=
  Table.Related.some_of_some h hc

theorem of_some (h : Moves now P ops ops') (hc : ops'.get? id = some c') :
    ∃ c, ops.get? id = some c ∧ Path now (P id) c c' :=
  Table.Related.of_some h hc

theorem refl (ops : Ops) : Moves now P ops ops := Table.Related.refl (fun _ => Path.refl) ops

theorem trans (h : Moves now P ops ops') (h' : Moves now P ops' ops'') : Moves now P ops ops'' :=
  Table.Related.trans (fun _ _ _ _ => Path.trans) h h'

theorem insert (hc : ops.get? id = some c) (hp : Path now (P id) c c') : Moves now P ops (ops.insert id c') :=
  Table.Related.insert (fun _ => Path.refl) hc hp

theorem tryMap {f : Nat → OpCell → Result OpCell}
    (hf : ∀ id c c', f id c = .ok c' → Path now (P id) c c') : Moves now P ops (ops.tryMap f).1 :=
  Table.Related.tryMap (fun _ => Path.refl) hf

end Moves

end Outbox
end SyncEngine
