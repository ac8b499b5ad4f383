import SyncEngine.Outbox.Lease

/-!
# A send is handed over once

A worker writes the first byte of a message only after the store has recorded its hand-over.  From that record on the
op never goes back to waiting by itself.  Only two things make it sendable again, and `Releases` names them: the
failure the handing worker itself records, and the host's word that the message was not delivered.
-/

namespace SyncEngine
namespace Outbox

/-- The entry gives up the hand-over made under `l`. -/
def Releases (l : OpLease) (e : Entry) : Prop :=
  (∃ cls retryAfter, e.call = .mark l (.failed cls retryAfter) ∧ e.reply = .done (.ok ())) ∨
  (∃ account, e.call = .confirm account l.op .notDelivered ∧ e.reply = .verdict (.ok none))

/-- How a send stands once its hand-over under `l` is on record. -/
structure HandedOver (l : OpLease) (c : OpCell) : Prop where
  kind : c.op.kind = .mailSubmit
  token : l.token ≤ c.token
  state : (c.state = .inFlight ∧ c.token = l.token ∧ c.handedOver = some l.token) ∨
    ((c.state = .needsConfirmation ∨ c.state = .succeeded) ∧
      (c.handedOver = none ∨ c.handedOver = some l.token))

namespace HandedOver

variable {l : OpLease} {c c' : OpCell} {now : UtcDateTime}

theorem not_pending (h : HandedOver l c) : c.state ≠ .pending := by
  rcases h.state with ⟨hs, -⟩ | ⟨hs | hs, -⟩ <;> simp [hs]

theorem not_refusable (h : HandedOver l c) : Mem.hostRefusal c ≠ none := by
  intro hn
  rcases hostRefusal_eq_none hn with hs | ⟨hs, -⟩
  · exact h.not_pending hs
  · rcases h.state with ⟨hs', -⟩ | ⟨hs' | hs', -⟩ <;> simp [hs'] at hs

theorem token_of_admits (h : HandedOver l c) {l' : OpLease} (hle : l'.token ≤ l.token)
    (ha : Mem.admits c l' = true) : l'.token = l.token := by
  have htok := h.token
  simp only [Mem.admits, Bool.or_eq_true, Bool.and_eq_true, decide_eq_true_eq] at ha
  rcases ha with ha | ⟨hs, ho⟩
  · omega
  · rcases h.state with ⟨hs', -⟩ | ⟨-, ho' | ho'⟩
    · rw [hs] at hs'
      simp at hs'
    · rw [ho] at ho'
      simp at ho'
    · rw [ho, Option.some.injEq] at ho'
      exact ho'

theorem recover (h : HandedOver l c) (hs : c.state = .inFlight) (hr : c.recover now = .ok c') : HandedOver l c' := by
  obtain ⟨hk, -, hst⟩ := h
  have ho : c.token = l.token ∧ c.handedOver = some l.token := by
    rcases hst with ⟨-, ht, ho⟩ | ⟨hs' | hs', -⟩
    · exact ⟨ht, ho⟩
    · rw [hs] at hs'; simp at hs'
    · rw [hs] at hs'; simp at hs'
  obtain ⟨d, hd, rfl⟩ := OpCell.recover_eq_ok.mp hr
  obtain ⟨-, hop, htok⟩ := OpCell.record_frame hd
  obtain ⟨keeps, hl, hho⟩ := OpCell.record_lands hd
  have hout : c.interrupted = interruptedOutcome .mailSubmit true := by
    rw [OpCell.interrupted, hk, ho.2]
    rfl
  rw [hout] at hl
  obtain ⟨hst, rfl⟩ := hl
  refine ⟨by rw [hop]; exact hk, ?_, Or.inr ⟨Or.inl hst, Or.inr (hho.trans ho.2)⟩⟩
  show l.token ≤ d.token + 1
  omega

theorem mark (h : HandedOver l c) {outcome : PendingOutcome} (hnf : outcome.isFailed = false)
    (hr : c.record outcome now = .ok c') : HandedOver l c' := by
  obtain ⟨-, hop, htok⟩ := OpCell.record_frame hr
  obtain ⟨keeps, hl, hho⟩ := OpCell.record_lands hr
  refine ⟨by rw [hop]; exact h.kind, by rw [htok]; exact h.token, Or.inr ?_⟩
  cases outcome with
  | succeeded key =>
    obtain ⟨hst, rfl⟩ := hl
    exact ⟨Or.inr hst, Or.inl hho⟩
  | failed cls retryAfter => exact absurd hnf (by simp [PendingOutcome.isFailed])
  | needsConfirmation detail =>
    obtain ⟨hst, rfl⟩ := hl
    refine ⟨Or.inl hst, ?_⟩
    rw [hho, if_pos rfl]
    rcases h.state with ⟨-, -, ho⟩ | ⟨-, ho⟩
    · exact Or.inr ho
    · exact ho

/-- Nothing an entry allows takes a handed-over send back to waiting, short of giving the
hand-over up. -/
theorem keeps {e : Entry} (hnr : ¬ Releases l e) (hmine : ∀ l', e.call.presents = some l' → l'.op = l.op →
      l'.token ≤ l.token ∧ (l'.token = l.token → l' = l))
    {x : Change} (h : HandedOver l c) (hx : Allows e l.op x) (hch : Changes e.now c x c') :
    HandedOver l c' := by
  cases hch with
  | recover hs hr => exact h.recover hs hr
  | @mark _ l' outcome hadm hr =>
    obtain ⟨hcall, hop, hreply⟩ := hx
    obtain ⟨hle, heq⟩ := hmine l' (by rw [hcall]; rfl) hop
    have hself : l' = l := heq (h.token_of_admits hle hadm)
    subst hself
    refine h.mark ?_ hr
    cases outcome with
    | failed cls retryAfter => exact absurd (Or.inl ⟨cls, retryAfter, hcall, hreply⟩) hnr
    | succeeded key => rfl
    | needsConfirmation detail => rfl
  | @handOver l' ht hs =>
    rcases h.state with ⟨-, ht', -⟩ | ⟨hs' | hs', -⟩
    · exact ⟨h.kind, h.token, Or.inl ⟨hs, ht', by rw [← ht', ht]⟩⟩
    · rw [hs] at hs'; simp at hs'
    · rw [hs] at hs'; simp at hs'
  | renew _ => exact ⟨h.kind, h.token, h.state⟩
  | cancel hn => exact absurd hn h.not_refusable
  | retryNow hn => exact absurd hn h.not_refusable
  | @confirm k hs =>
    simp only [Mem.confirmAct, hs]
    cases k with
    | delivered =>
      exact ⟨h.kind, Nat.le_succ_of_le h.token, Or.inr ⟨Or.inr rfl, Or.inl rfl⟩⟩
    | notDelivered =>
      obtain ⟨account, hcall, hreply⟩ := hx
      exact absurd (Or.inr ⟨account, hcall, hreply⟩) hnr
  | reconcile _ =>
    refine ⟨h.kind, h.token, Or.inr ⟨Or.inr rfl, ?_⟩⟩
    rcases h.state with ⟨-, -, ho⟩ | ⟨-, ho⟩
    · exact Or.inr ho
    · exact ho
  | stamp _ => exact ⟨h.kind, h.token, h.state⟩

end HandedOver

/-- The state of a run after the hand-over under `l`: the send stands as handed over and no
later lease of it exists. -/
structure HandOverHeld (l : OpLease) (s : MemSystem) : Prop where
  fenced : Fenced s
  issued : l ∈ s.issued
  newest : ∀ l' ∈ s.issued, l'.op = l.op → l'.token ≤ l.token
  cell : ∃ c, s.store.ops.get? l.op = some c ∧ HandedOver l c

variable {l : OpLease} {s s' : MemSystem} {e : Entry}

theorem HandOverHeld.step (h : HandOverHeld l s) (hnr : ¬ Releases l e) (hstep : MemStep s e s') : HandOverHeld l s' := by
  obtain ⟨c, hc, hK⟩ := h.cell
  have hmine : ∀ l', e.call.presents = some l' → l'.op = l.op → l'.token ≤ l.token ∧ (l'.token = l.token → l' = l) := by
    intro l' hp hop
    have hl' := hstep.presented l' hp
    exact ⟨h.newest l' hl' hop, fun ht => h.fenced.unique l' hl' l h.issued hop ht⟩
  obtain ⟨hcell, hnone⟩ := hstep.keeps_cell h.fenced
    (fun _ _ _ hK hx hch => hK.keeps hnr hmine hx hch) (fun _ hK => hK.not_pending) hc hK
  refine ⟨h.fenced.step hstep, hstep.subset_issued h.issued, ?_, hcell⟩
  intro l' hl' hop
  rw [hstep.issued, List.mem_append] at hl'
  rcases hl' with hl' | hl'
  · exact h.newest l' hl' hop
  · exact absurd hop (hnone l' hl')

theorem handOver_ok {s s' : Mem} (h : s.handOver l = (s', .ok ())) :
    ∃ c, s.ops.get? l.op = some c ∧ c.token = l.token ∧ c.state = .inFlight ∧
      s'.ops.get? l.op = some { c with handedOver := some l.token } := by
  unfold Mem.handOver at h
  split at h
  · simp at h
  · rename_i c hheld
    obtain ⟨hc, ht, hs⟩ := held_eq_some hheld
    cases h
    refine ⟨c, hc, ht, hs, ?_⟩
    rw [Table.get?_insert, if_pos rfl]

theorem step_handOver_ok (hstep : MemStep s e s') (hcall : e.call = .handOver l) (hreply : e.reply = .done (.ok ())) :
    s.store.handOver l = (s'.store, .ok ()) := by
  have h := hstep.answered
  rw [hcall, hreply] at h
  simp only [Mem.run, Prod.mk.injEq, Reply.done.injEq] at h
  exact Prod.ext h.1 h.2

theorem handOverHeld_of_handOver (hf : Fenced s)
    (hstep : MemStep s e s') (hcall : e.call = .handOver l) (hreply : e.reply = .done (.ok ()))
    (hkind : ∀ c, s'.store.ops.get? l.op = some c → c.op.kind = .mailSubmit) :
    HandOverHeld l s' := by
  have hmem : l ∈ s.issued := hstep.presented l (by rw [hcall]; rfl)
  have hissued : s'.issued = s.issued := by
    rw [hstep.issued, hreply]
    exact List.append_nil _
  obtain ⟨c, hc, ht, hs, hc'⟩ := handOver_ok (step_handOver_ok hstep hcall hreply)
  refine ⟨hf.step hstep, hissued ▸ hmem, ?_, _, hc', hkind _ hc', ?_, Or.inl ⟨hs, ht, rfl⟩⟩
  · intro l' hl' hop
    rw [hissued] at hl'
    obtain ⟨c₁, hc₁, -, htok⟩ := hf.known l' hl'
    rw [hop, hc, Option.some.injEq] at hc₁
    subst hc₁
    omega
  · exact Nat.le_of_eq ht.symm

theorem Fenced.cell_step {e : Entry} {id : PendingOpId} {c : OpCell} (hf : Fenced s) (h : MemStep s e s')
    (hc : ∃ d, s.store.ops.get? id = some d ∧ d.account = c.account ∧ d.op = c.op ∧ c.token ≤ d.token) :
    ∃ d, s'.store.ops.get? id = some d ∧ d.account = c.account ∧ d.op = c.op ∧ c.token ≤ d.token := by
  obtain ⟨d, hd, haccount, hop, htoken⟩ := hc
  rcases run_cases h.answered with ⟨account, op, -, -, hops, -⟩ | ha
  · have hne : id ≠ s.store.nextOp := Nat.ne_of_lt (hf.fresh id d hd)
    exact ⟨d, by rw [hops, Table.get?_insert, if_neg hne]; exact hd, haccount, hop, htoken⟩
  · obtain ⟨d', hd', haccount', hop', htoken'⟩ := ha.frame hd
    exact ⟨d', hd', haccount'.trans haccount, hop'.trans hop, Nat.le_trans htoken htoken'⟩

theorem kind_of_run {es : List Entry} (hf : Fenced s) (h : Run MemStep s es s') {id : PendingOpId} {c : OpCell}
    (hc : s.store.ops.get? id = some c) :
    ∃ c', s'.store.ops.get? id = some c' ∧ c'.op = c.op := by
  obtain ⟨-, c', hc', -, hop, -⟩ := h.preserves (I := fun s => Fenced s ∧
    ∃ d, s.store.ops.get? id = some d ∧ d.account = c.account ∧ d.op = c.op ∧ c.token ≤ d.token)
    (fun _ _ _ h hstep => ⟨h.1.step hstep, h.1.cell_step hstep h.2⟩) ⟨hf, c, hc, rfl, rfl, Nat.le_refl _⟩
  exact ⟨c', hc', hop⟩

/-- From when it is queued an op is in every state that follows, with the account and the envelope it was queued with.
Its token never falls, no lease of it is newer than that, and no two leases of it have one token. -/
theorem queued_op_kept {s s' : MemSystem} {before after : List Entry} {id : PendingOpId} {c : OpCell}
    (hbefore : Run MemStep MemSystem.start before s) (hafter : Run MemStep s after s')
    (hc : s.store.ops.get? id = some c) :
    (∃ c', s'.store.ops.get? id = some c' ∧ c'.account = c.account ∧ c'.op = c.op ∧ c.token ≤ c'.token ∧
      ∀ l ∈ s'.issued, l.op = id → l.account = c.account ∧ l.token ≤ c'.token) ∧
      ∀ l ∈ s'.issued, ∀ l' ∈ s'.issued, l.op = id → l'.op = id → l.token = l'.token → l = l' := by
  have hfenced : Fenced s := hbefore.preserves (fun _ _ _ hf h => hf.step h) fenced_start
  obtain ⟨hf, c', hc', haccount, hop, htoken⟩ := hafter.preserves (I := fun s => Fenced s ∧
    ∃ c', s.store.ops.get? id = some c' ∧ c'.account = c.account ∧ c'.op = c.op ∧ c.token ≤ c'.token)
    (fun _ _ _ h hstep => ⟨h.1.step hstep, h.1.cell_step hstep h.2⟩) ⟨hfenced, c, hc, rfl, rfl, Nat.le_refl _⟩
  refine ⟨⟨c', hc', haccount, hop, htoken, ?_⟩, fun l hl l' hl' hid hid' => hf.unique l hl l' hl' (hid.trans hid'.symm)⟩
  rintro l hl rfl
  obtain ⟨d, hd, hsame, hle⟩ := hf.known l hl
  obtain rfl := Option.some.inj (hc'.symm.trans hd)
  exact ⟨hsame.symm.trans haccount, hle⟩

/-- No send is handed over twice: between two hand-overs of one send under different leases,
the first lease's own failure was recorded or the host answered that it was not delivered. -/
theorem handOver_once {s : MemSystem} {before between after : List Entry} {e₁ e₂ : Entry}
    {l₁ l₂ : OpLease} {send : OpCell}
    (hrun : Run MemStep MemSystem.start (before ++ e₁ :: between ++ e₂ :: after) s)
    (hsend : s.store.ops.get? l₁.op = some send) (hkind : send.op.kind = .mailSubmit)
    (h₁ : e₁.call = .handOver l₁) (hok₁ : e₁.reply = .done (.ok ()))
    (h₂ : e₂.call = .handOver l₂) (hok₂ : e₂.reply = .done (.ok ()))
    (hop : l₁.op = l₂.op) (hne : l₁ ≠ l₂) :
    ∃ e ∈ between, Releases l₁ e := by
  by_contra hnone
  have hnr : ∀ e ∈ between, ¬ Releases l₁ e := fun e he hrel => hnone ⟨e, he, hrel⟩
  obtain ⟨s₃, hrun, htail⟩ := Run.append_iff.mp hrun
  obtain ⟨s₁, hhead, hrun⟩ := Run.append_iff.mp hrun
  obtain ⟨s₂, hstep₁, hmid⟩ := Run.cons_iff.mp hrun
  obtain ⟨s₄, hstep₂, hrest⟩ := Run.cons_iff.mp htail
  have hf₁ : Fenced s₁ := hhead.preserves (fun _ _ _ hf h => hf.step h) fenced_start
  have hf₂ := hf₁.step hstep₁
  have hkind₂ : ∀ c, s₂.store.ops.get? l₁.op = some c → c.op.kind = .mailSubmit := by
    intro c hc
    obtain ⟨c', hc', hop'⟩ := kind_of_run hf₂ (hmid.append (.cons hstep₂ hrest)) hc
    rw [hsend, Option.some.injEq] at hc'
    rw [← hop', ← hc']
    exact hkind
  have hheld : HandOverHeld l₁ s₃ := hmid.preserves_of_forall (fun _ _ _ h hn hs => h.step hn hs) hnr
      (handOverHeld_of_handOver hf₁ hstep₁ h₁ hok₁ hkind₂)
  obtain ⟨c, hc, ht, hs, -⟩ := handOver_ok (step_handOver_ok hstep₂ h₂ hok₂)
  obtain ⟨c₁, hc₁, hK⟩ := hheld.cell
  rw [hop, hc, Option.some.injEq] at hc₁
  subst hc₁
  have htok : l₁.token = l₂.token := by
    rcases hK.state with ⟨-, ht', -⟩ | ⟨hs' | hs', -⟩
    · omega
    · rw [hs] at hs'; simp at hs'
    · rw [hs] at hs'; simp at hs'
  exact hne (hheld.fenced.unique l₁ hheld.issued l₂ (hstep₂.presented l₂ (by rw [h₂]; rfl)) hop htok)

namespace Sample

/-- A worker hands the send over and is cut off, the host answers that it was not delivered,
and a second worker hands it over again. -/
def resent : List (Call × UtcDateTime) :=
  [(.enqueue "a" send, noon), (.claimOps "a" request 5, noon), (.handOver (lease 0 1), noon),
    (.recoverInterrupted, noon), (.confirm "a" 0 .notDelivered, noon),
    (.claimOne "a" 0 request, noon), (.handOver (lease 0 4), noon)]

end Sample

open Sample in
theorem queued_op_kept_resent :
    ∃ c, ((MemSystem.start.trace Mem.run (resent.take 1)).2.trace Mem.run (resent.drop 1)).2.store.ops.get? 0 = some c ∧
      c.op = send := by
  obtain ⟨⟨c, hc, -, hop, -⟩, -⟩ := queued_op_kept
    (@System.run_trace _ Mem.run MemSystem.start (resent.take 1) (by decide))
    (@System.run_trace _ Mem.run (MemSystem.start.trace Mem.run (resent.take 1)).2 (resent.drop 1) (by decide))
    (rfl : (MemSystem.start.trace Mem.run (resent.take 1)).2.store.ops.get? 0 = some (OpCell.queued "a" send))
  exact ⟨c, hc, hop⟩

open Sample in
theorem handOver_once_resent : ∃ e ∈ ([⟨.recoverInterrupted, noon, .counted (.ok 1)⟩,
        ⟨.confirm "a" 0 .notDelivered, noon, .verdict (.ok none)⟩,
        ⟨.claimOne "a" 0 request, noon, .claimed (.ok (.leased ⟨0, send, lease 0 4⟩))⟩] : List Entry),
      Releases (lease 0 1) e :=
  @handOver_once (MemSystem.start.trace Mem.run resent).2 [⟨.enqueue "a" send, noon, .enqueued (.ok 0)⟩,
      ⟨.claimOps "a" request 5, noon, .leased (.ok [⟨0, send, lease 0 1⟩])⟩] _ []
    ⟨.handOver (lease 0 1), noon, .done (.ok ())⟩ ⟨.handOver (lease 0 4), noon, .done (.ok ())⟩
    (lease 0 1) (lease 0 4) _
    (@System.run_trace _ Mem.run MemSystem.start resent (by decide))
    rfl rfl rfl rfl rfl rfl rfl (by decide)

end Outbox
end SyncEngine
