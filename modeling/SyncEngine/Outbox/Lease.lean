import SyncEngine.Outbox.Verbs
import SyncEngine.Outbox.SettledRows

/-!
# Leases over a run of the in-memory outbox

In every state a run reaches op ids are handed out in order, every lease ever issued names an op of its account whose
token has not fallen below the lease's, and no two leases of one op carry the same token.

`Step.keeps_cell` is the rule the safety results use: a property of one op's row that no allowed change breaks, and
that no waiting row has, survives a whole call, and the call grants no lease on that op.
-/

namespace SyncEngine
namespace Outbox

abbrev MemSystem := System Mem

/-- A store nobody has called yet. -/
def MemSystem.start : MemSystem := ⟨Mem.new, []⟩

abbrev MemStep : MemSystem → Entry → MemSystem → Prop := Step Mem.run

section Cell

variable {s s' : Mem} {e : Entry} {id : PendingOpId} {c c' : OpCell}

theorem Acts.cell (h : Acts e s s') (hc : s.ops.get? id = some c) : ∃ m, Path e.now (Allows e id) c m ∧
      ((s'.ops.get? id = some m ∧ ∀ l ∈ e.reply.granted, l.id ≠ id) ∨
       ∃ l ∈ e.reply.granted, l.id = id ∧ m.state = .pending ∧
        s'.ops.get? id = some (QueuedRow.leased m l.lease.expiry)) := by
  obtain ⟨mid, hmoves, hclaim⟩ := h.ops
  obtain ⟨m, hm, hpath⟩ := hmoves.some_of_some hc
  refine ⟨m, hpath, ?_⟩
  rcases hclaim.granted_or_kept id with ⟨l, hmem, rfl, r, hg⟩ | ⟨hnone, hkept⟩
  · have hr : m = r := by
      have hrow := hg.row
      rwa [hm, Option.some.injEq] at hrow
    subst hr
    exact Or.inr ⟨l, hmem, rfl, hg.waiting, hg.after⟩
  · exact Or.inl ⟨hkept.trans hm, hnone⟩

theorem Acts.of_cell (h : Acts e s s') (hc : s'.ops.get? id = some c') : ∃ c, s.ops.get? id = some c := by
  obtain ⟨mid, hmoves, hclaim⟩ := h.ops
  have hm : ∃ m, mid.get? id = some m := by
    rcases hclaim.granted_or_kept id with ⟨l, -, rfl, r, hg⟩ | ⟨-, hkept⟩
    · exact ⟨r, hg.row⟩
    · exact ⟨c', hkept ▸ hc⟩
  obtain ⟨m, hm⟩ := hm
  obtain ⟨c, hc, -⟩ := hmoves.of_some hm
  exact ⟨c, hc⟩

theorem Acts.frame (h : Acts e s s') (hc : s.ops.get? id = some c) :
    ∃ c', s'.ops.get? id = some c' ∧ c'.account = c.account ∧ c'.op = c.op ∧ c.token ≤ c'.token := by
  obtain ⟨m, hpath, hcase⟩ := h.cell hc
  obtain ⟨hacc, hop, htok⟩ := hpath.frame
  rcases hcase with ⟨hm, -⟩ | ⟨l, -, -, -, hm⟩
  · exact ⟨m, hm, hacc, hop, htok⟩
  · exact ⟨_, hm, hacc, hop, Nat.le_succ_of_le htok⟩

end Cell

/-- The fencing invariant of a run. -/
structure Fenced (s : MemSystem) : Prop where
  fresh : ∀ id c, s.store.ops.get? id = some c → id < s.store.nextOp
  known : ∀ l ∈ s.issued, ∃ c, s.store.ops.get? l.op = some c ∧ c.account = l.account ∧
    l.token ≤ c.token
  unique : ∀ l ∈ s.issued, ∀ l' ∈ s.issued, l.op = l'.op → l.token = l'.token → l = l'

theorem fenced_start : Fenced MemSystem.start := by
  refine ⟨?_, ?_, ?_⟩
  · intro id c h
    exact absurd h (by simp [MemSystem.start, Mem.new])
  · intro l hl
    exact absurd hl (by simp [MemSystem.start])
  · intro l hl
    exact absurd hl (by simp [MemSystem.start])

section Steps

variable {s s' : MemSystem} {e : Entry} {id : PendingOpId} {c : OpCell}

theorem Acts.granted_token (h : Acts e s.store s'.store) (hf : Fenced s) {g : LeasedPendingOp}
    (hg : g ∈ e.reply.granted) {l : OpLease} (hl : l ∈ s.issued) (hop : l.op = g.lease.op) :
    l.token < g.lease.token := by
  obtain ⟨c, hc, -, htok⟩ := hf.known l hl
  obtain ⟨mid, hmoves, hclaim⟩ := h.ops
  obtain ⟨m, hgr⟩ := hclaim.granted g hg
  have hm := hgr.row
  rw [← hgr.op, ← hop] at hm
  obtain ⟨c₁, hc₁, hpath⟩ := hmoves.of_some hm
  rw [hc, Option.some.injEq] at hc₁
  subst hc₁
  have hle := hpath.frame.2.2
  have hnext : g.lease.token = m.token + 1 := hgr.nextToken
  omega

theorem Fenced.step_of_acts (hf : Fenced s) (h : MemStep s e s') (ha : Acts e s.store s'.store) : Fenced s' := by
  refine ⟨?_, ?_, ?_⟩
  · intro id c' hc'
    obtain ⟨c, hc⟩ := ha.of_cell hc'
    rw [ha.nextOp]
    exact hf.fresh id c hc
  · intro l hl
    rw [h.issued, List.mem_append, Reply.leases, List.mem_map] at hl
    rcases hl with hl | ⟨g, hg, rfl⟩
    · obtain ⟨c, hc, hacc, htok⟩ := hf.known l hl
      obtain ⟨c', hc', hacc', -, htok'⟩ := ha.frame hc
      exact ⟨c', hc', hacc'.trans hacc, Nat.le_trans htok htok'⟩
    · obtain ⟨mid, -, hclaim⟩ := ha.ops
      obtain ⟨m, hgr⟩ := hclaim.granted g hg
      rw [hgr.op]
      exact ⟨_, hgr.after, hgr.ofAccount.symm, Nat.le_of_eq hgr.nextToken⟩
  · intro l hl l' hl' hop htok
    rw [h.issued, List.mem_append, Reply.leases, List.mem_map] at hl hl'
    rcases hl with hl | ⟨g, hg, rfl⟩
    · rcases hl' with hl' | ⟨g', hg', rfl⟩
      · exact hf.unique l hl l' hl' hop htok
      · have := ha.granted_token hf hg' hl hop
        omega
    · rcases hl' with hl' | ⟨g', hg', rfl⟩
      · have := ha.granted_token hf hg hl' hop.symm
        omega
      · -- one call grants an op at most once
        obtain ⟨mid, -, hclaim⟩ := ha.ops
        obtain ⟨_, hgr⟩ := hclaim.granted g hg
        obtain ⟨_, hgr'⟩ := hclaim.granted g' hg'
        have hid : g.id = g'.id := by rw [← hgr.op, ← hgr'.op, hop]
        by_contra hne
        have hne' : g ≠ g' := fun heq => hne (by rw [heq])
        exact (hclaim.apart hg hg' hne').1 hid

theorem Fenced.step (hf : Fenced s) (h : MemStep s e s') : Fenced s' := by
  rcases run_cases h.answered with ⟨account, op, hcall, hreply, hops, hnext⟩ | ha
  · have hissued : s'.issued = s.issued := by
      rw [h.issued, hreply]
      exact List.append_nil _
    have hkeep : ∀ id c, s.store.ops.get? id = some c → s'.store.ops.get? id = some c := by
      intro id c hc
      have hne : id ≠ s.store.nextOp := Nat.ne_of_lt (hf.fresh id c hc)
      rw [hops, Table.get?_insert, if_neg hne]
      exact hc
    refine ⟨?_, ?_, ?_⟩
    · intro id c hc
      rw [hops, Table.get?_insert] at hc
      rw [hnext]
      split at hc
      · rename_i hid
        rw [hid]
        exact Nat.lt_succ_self _
      · exact Nat.lt_succ_of_lt (hf.fresh id c hc)
    · intro l hl
      rw [hissued] at hl
      obtain ⟨c, hc, hrest⟩ := hf.known l hl
      exact ⟨c, hkeep _ _ hc, hrest⟩
    · rw [hissued]
      exact hf.unique
  · exact hf.step_of_acts h ha

theorem Step.keeps_cell {K : OpCell → Prop} (hf : Fenced s) (h : MemStep s e s')
    (hkeep : ∀ c x c', K c → Allows e id x → Changes e.now c x c' → K c')
    (hpend : ∀ c, K c → c.state ≠ .pending)
    (hc : s.store.ops.get? id = some c) (hK : K c) :
    (∃ c', s'.store.ops.get? id = some c' ∧ K c') ∧ ∀ l ∈ e.reply.leases, l.op ≠ id := by
  rcases run_cases h.answered with ⟨account, op, hcall, hreply, hops, hnext⟩ | ha
  · have hne : id ≠ s.store.nextOp := Nat.ne_of_lt (hf.fresh id c hc)
    refine ⟨⟨c, ?_, hK⟩, ?_⟩
    · rw [hops, Table.get?_insert, if_neg hne]
      exact hc
    · rw [hreply]
      exact fun l hl => absurd hl (by simp [Reply.leases, Reply.granted])
  · obtain ⟨m, hpath, hcase⟩ := ha.cell hc
    have hm : K m := hpath.preserves hkeep hK
    rcases hcase with ⟨hget, hnone⟩ | ⟨l, -, -, hst, -⟩
    · refine ⟨⟨m, hget, hm⟩, ?_⟩
      intro l hl
      rw [Reply.leases, List.mem_map] at hl
      obtain ⟨g, hg, rfl⟩ := hl
      obtain ⟨mid, -, hclaim⟩ := ha.ops
      obtain ⟨_, hgr⟩ := hclaim.granted g hg
      rw [hgr.op]
      exact hnone g hg
    · exact absurd hst (hpend m hm)

end Steps

/-!
## Exclusion and order

In either store, no two ops of an account in flight share a resource, and a claim leases only ops that are waiting and
due and whose dependencies are done.  No transaction but a claim puts an op in flight, so exclusion is an invariant of
runs.  What a claim decides on is the table with the account's dead attempts recovered.
-/

open QueuedRow

section Statements

variable {α : Type} [QueuedRow α]

def OneInFlight (t : Table α) : Prop :=
  ∀ i j a b, t.get? i = some a → t.get? j = some b → state a = .inFlight → state b = .inFlight →
    account a = account b → resourceKey a = resourceKey b → i = j

/-- How an op stood when a claim that turned `t` into `t'` leased it: waiting, due, and every
op it depends on of its account and done, both before and after the claim. -/
def LeasedInOrder (t t' : Table α) (now : UtcDateTime) (g : LeasedPendingOp) : Prop :=
  ∃ r, t.get? g.id = some r ∧ account r = g.lease.account ∧ state r = .pending ∧
    (∀ instant, nextAttemptAt r = some instant → instant ≤ now) ∧
    ∀ d ∈ g.op.dependsOn, Done t g.lease.account d ∧ Done t' g.lease.account d

theorem oneInFlight_of_exclusive {t : Table α} (h : Exclusive holds t) : OneInFlight t := by
  intro i j a b ha hb hsa hsb hacc hres
  exact h i j a b _ ha hb (holds_eq_some.mpr ⟨hsa, rfl⟩) (holds_eq_some.mpr ⟨hsb, by rw [hacc, hres]⟩)

theorem Claimed.leasedInOrder {now : UtcDateTime} {t t' : Table α} {ls : List LeasedPendingOp}
    (h : Claimed now t t' ls) {g : LeasedPendingOp} (hg : g ∈ ls) : LeasedInOrder t t' now g := by
  obtain ⟨r, hr⟩ := h.granted g hg
  refine ⟨r, hr.row, hr.ofAccount.symm, hr.waiting, hr.due, ?_⟩
  intro d hd
  have hdone := hr.dependencies d hd
  rw [hr.ofAccount]
  exact ⟨hdone, h.done_after hdone⟩

end Statements

/-! ## The in-memory store -/

theorem Moves.exclusive {now : UtcDateTime} {P : PendingOpId → Change → Prop} {ops ops' : Ops}
    (h : Moves now P ops ops') (hex : Exclusive holds ops) : Exclusive holds ops' := by
  refine exclusive_of_related ?_ h hex
  intro id c c' hpath hs
  obtain ⟨hacc, hop, -⟩ := hpath.frame
  exact ⟨hpath.inFlight hs, hacc, congrArg PendingOp.resourceKey hop⟩

theorem mem_exclusive_step {s s' : MemSystem} {e : Entry} (hex : Exclusive holds s.store.ops)
    (hstep : MemStep s e s') : Exclusive holds s'.store.ops := by
  rcases run_cases hstep.answered with ⟨account, op, -, -, hops, -⟩ | ha
  · rw [hops]
    exact exclusive_insert (by simp [QueuedRow.state, OpCell.queued]) hex
  · obtain ⟨mid, hmoves, hclaim⟩ := ha.ops
    exact hclaim.exclusive (hmoves.exclusive hex)

/-! ## The SQLite store -/

abbrev SqliteSystem := System Sqlite

def SqliteSystem.start : SqliteSystem := ⟨Sqlite.new, []⟩

abbrev SqliteStep : SqliteSystem → Entry → SqliteSystem → Prop := Step Sqlite.run

theorem Kept.exclusive {t t' : Table OpRow} (h : Kept t t') (hex : Exclusive holds t) : Exclusive holds t' := by
  refine exclusive_of_related ?_ h hex
  intro id r r' hkept hs
  exact ⟨hkept.inFlight hs, hkept.account, hkept.resourceKey⟩

theorem sqlite_exclusive_step {s s' : SqliteSystem} {e : Entry}
    (hex : Exclusive holds s.store.pendingOp) (hstep : SqliteStep s e s') :
    Exclusive holds s'.store.pendingOp := by
  rcases Sqlite.run_cases hstep.answered with ⟨account, op, -, -, hops⟩ | ⟨mid, hkept, hclaim⟩
  · rw [hops]
    exact exclusive_insert (by simp [QueuedRow.state, Sqlite.queuedRow]) hex
  · exact hclaim.exclusive (hkept.exclusive hex)

/-! ## Both -/

/-- In every state a run reaches, in either store, one op at most holds a resource, and
every claim made from it leases in order. -/
theorem exclusion_and_order : (∀ es (s : MemSystem), Run MemStep MemSystem.start es s → OneInFlight s.store.ops ∧
      (∀ account req limit now s' leased, s.store.claimOps account req limit now = (s', .ok leased) →
        ∀ g ∈ leased, LeasedInOrder (Mem.ready s.store.ops account now) s'.ops now g) ∧
      (∀ account id req now s' g, s.store.claimOne account id req now = (s', .ok (.leased g)) →
        LeasedInOrder (Mem.ready s.store.ops account now) s'.ops now g)) ∧
    (∀ es (s : SqliteSystem), Run SqliteStep SqliteSystem.start es s → OneInFlight s.store.pendingOp ∧
      (∀ account req limit now db leased, s.store.claim account req limit now = (db, .ok leased) →
        ∃ ready, s.store.recoverDead account now = .ok ready ∧
          ∀ g ∈ leased, LeasedInOrder ready.pendingOp db.pendingOp now g) ∧
      (∀ account id req now db g, s.store.claimOne account id req now = (db, .ok (.leased g)) →
        ∃ ready, s.store.recoverDead account now = .ok ready ∧ LeasedInOrder ready.pendingOp db.pendingOp now g)) := by
  constructor
  · intro es s hrun
    have hex : Exclusive holds s.store.ops := hrun.preserves (I := fun s => Exclusive holds s.store.ops)
        (fun _ _ _ hex hstep => mem_exclusive_step hex hstep) Exclusive.empty
    refine ⟨oneInFlight_of_exclusive hex, ?_, ?_⟩
    · intro account req limit now s' leased h g hg
      exact (claimOps_ok h).leasedInOrder hg
    · intro account id req now s' g h
      exact (claimOne_ok h).leasedInOrder (by simp)
  · intro es s hrun
    have hex : Exclusive holds s.store.pendingOp := hrun.preserves (I := fun s => Exclusive holds s.store.pendingOp)
        (fun _ _ _ hex hstep => sqlite_exclusive_step hex hstep) Exclusive.empty
    refine ⟨oneInFlight_of_exclusive hex, ?_, ?_⟩
    · intro account req limit now db leased h
      obtain ⟨ready, hready, hclaim⟩ := Sqlite.claim_ok h
      exact ⟨ready, hready, fun g hg => hclaim.leasedInOrder hg⟩
    · intro account id req now db g h
      obtain ⟨ready, hready, hclaim⟩ := Sqlite.claimOne_ok h
      exact ⟨ready, hready, hclaim.leasedInOrder (by simp)⟩

namespace Sample

/-- Two edits of one message, of which a claim may take only the first. -/
def sharedResource : List (Call × UtcDateTime) :=
  [(.enqueue "a" edit, noon), (.enqueue "a" { edit with idempotencyKey := "again" }, noon),
    (.claimOps "a" request 5, noon)]

end Sample

open Sample in
theorem exclusion_and_order_sharedResource : OneInFlight (MemSystem.start.trace Mem.run sharedResource).2.store.ops ∧
    OneInFlight (SqliteSystem.start.trace Sqlite.run sharedResource).2.store.pendingOp :=
  ⟨(exclusion_and_order.1 _ _ (@System.run_trace _ Mem.run MemSystem.start sharedResource (by decide))).1,
    (exclusion_and_order.2 _ _ (@System.run_trace _ Sqlite.run SqliteSystem.start sharedResource (by decide))).1⟩

end Outbox

namespace Outbox

/-!
## Settled ops

An op that succeeded, was withdrawn, or failed for good without being a send is settled: the outbox means never to
touch it again, and drops what it would need to run it.  The one verb that does not ask is `mark`: recording an outcome
leaves the token as it is, so the lease that settled an op can be presented again.

`Late` names the calls that reach past a settlement; without them a settled op keeps its state and is never leased.
-/

def Settled (c : OpCell) : Prop :=
  c.state = .succeeded ∨ c.state = .cancelled ∨ (c.state = .failed ∧ c.op.kind ≠ .mailSubmit)

/-- The call reports on an op that has settled under the token it presents, or reconciles one
it expects to find withdrawn or failed. -/
def Late (s : MemSystem) (e : Entry) : Prop :=
  (∃ l outcome c, e.call = .mark l outcome ∧ s.store.ops.get? l.op = some c ∧ Settled c ∧
    l.token = c.token) ∨
  (∃ recs r c, e.call = .reconcile recs ∧ r ∈ recs ∧ s.store.ops.get? r.op = some c ∧
    Settled c ∧ c.state ≠ .succeeded ∧ r.expected = c.state)

def TimelyStep (s : MemSystem) (e : Entry) (s' : MemSystem) : Prop :=
  MemStep s e s' ∧ ¬ Late s e

namespace Settled

variable {c c' : OpCell}

theorem state_ne (h : Settled c) : c.state ≠ .pending ∧ c.state ≠ .inFlight ∧ c.state ≠ .needsConfirmation := by
  rcases h with hs | hs | ⟨hs, -⟩ <;> simp [hs]

theorem not_refusable (h : Settled c) : Mem.hostRefusal c ≠ none := by
  intro hn
  rcases hostRefusal_eq_none hn with hs | ⟨hs, hk⟩
  · exact h.state_ne.1 hs
  · rcases h with hs' | hs' | ⟨-, hk'⟩
    · rw [hs] at hs'; simp at hs'
    · rw [hs] at hs'; simp at hs'
    · exact hk' hk

/-- The state and the token a settled op keeps.  The envelope is kept by every change. -/
def Keeps (c d : OpCell) : Prop := d.state = c.state ∧ d.token = c.token ∧ d.op = c.op

theorem of_keeps {d : OpCell} (h : Settled c) (hk : Keeps c d) : Settled d := by
  obtain ⟨hs, -, hop⟩ := hk
  unfold Settled
  rw [hs, hop]
  exact h

theorem keeps {s : MemSystem} {e : Entry} {id : PendingOpId} {d : OpCell} {x : Change}
    (h : Settled c) (hc : s.store.ops.get? id = some c) (hlate : ¬ Late s e) (hk : Keeps c d)
    (hx : Allows e id x) (hch : Changes e.now d x c') : Keeps c c' := by
  have hd := h.of_keeps hk
  obtain ⟨hp, hf, hn⟩ := hd.state_ne
  cases hch with
  | recover hs _ => exact absurd hs hf
  | @mark _ l outcome hadm hr =>
    obtain ⟨hcall, hop, -⟩ := hx
    simp only [Mem.admits, Bool.or_eq_true, Bool.and_eq_true, decide_eq_true_eq] at hadm
    rcases hadm with ht | ⟨hs, -⟩
    · subst hop
      exact absurd (Or.inl ⟨l, outcome, c, hcall, hc, h, ht.trans hk.2.1⟩) hlate
    · exact absurd hs hn
  | handOver _ hs => exact absurd hs hf
  | renew hs => exact absurd hs hf
  | cancel hr => exact absurd hr hd.not_refusable
  | retryNow hr => exact absurd hr hd.not_refusable
  | confirm hs => exact absurd hs hn
  | @reconcile expected hs =>
    obtain ⟨recs, hcall, hmem⟩ := hx
    by_cases hsucc : c.state = .succeeded
    · exact ⟨hsucc.symm, hk.2⟩
    · exact absurd (Or.inr ⟨recs, _, c, hcall, hmem, hc, h, hsucc, hs.symm.trans hk.1⟩) hlate
  | stamp _ => exact hk

end Settled

theorem mem_settled_stays {es₁ es₂ : List Entry} {s₁ s₂ : MemSystem} {id : PendingOpId} {c : OpCell}
    (h₁ : Run MemStep MemSystem.start es₁ s₁) (h₂ : Run TimelyStep s₁ es₂ s₂)
    (hc : s₁.store.ops.get? id = some c) (hset : Settled c) :
    (∃ c', s₂.store.ops.get? id = some c' ∧ c'.state = c.state) ∧ ∀ e ∈ es₂, ∀ l ∈ e.reply.leases, l.op ≠ id := by
  have hf : Fenced s₁ := h₁.preserves (fun _ _ _ hf h => hf.step h) fenced_start
  have hrun := h₂.preserves_and_forall (I := fun s => Fenced s ∧ ∃ d, s.store.ops.get? id = some d ∧ Settled.Keeps c d)
    (Q := fun e => ∀ l ∈ e.reply.leases, l.op ≠ id) ?_ ⟨hf, c, hc, rfl, rfl, rfl⟩
  · obtain ⟨⟨-, d, hd, hk⟩, hnone⟩ := hrun
    exact ⟨⟨d, hd, hk.1⟩, hnone⟩
  · rintro s e s' ⟨hf, d, hd, hk⟩ ⟨hstep, hlate⟩
    have hdset := hset.of_keeps hk
    obtain ⟨⟨d', hd', hk'⟩, hnone⟩ := hstep.keeps_cell hf (fun _ _ _ hkd hx hch => hdset.keeps hd hlate hkd hx hch)
      (fun _ hkd => (hdset.of_keeps hkd).state_ne.1) hd ⟨rfl, rfl, rfl⟩
    refine ⟨⟨hf.step hstep, d', hd', ?_⟩, hnone⟩
    exact ⟨hk'.1.trans hk.1, hk'.2.1.trans hk.2.1, hk'.2.2.trans hk.2.2⟩

/-- The same of a row of the durable store. -/
def LateCall (d : SqliteSystem) (e : Entry) : Prop :=
  ∃ id r, d.store.pendingOp.get? id = some r ∧ SettledRow r ∧ LateRow e id r

def TimelyCall (d : SqliteSystem) (e : Entry) (d' : SqliteSystem) : Prop :=
  SqliteStep d e d' ∧ ¬ LateCall d e

theorem sqlite_settled_stays {es : List Entry} {d₁ d₂ : SqliteSystem} {id : PendingOpId} {r : OpRow}
    (h : Run TimelyCall d₁ es d₂) (hr : d₁.store.pendingOp.get? id = some r) (hset : SettledRow r) :
    (∃ r', d₂.store.pendingOp.get? id = some r' ∧ r'.state = r.state) ∧ ∀ e ∈ es, ∀ l ∈ e.reply.leases, l.op ≠ id := by
  have hrun := h.preserves_and_forall (I := fun d => Rests id r d.store.pendingOp)
    (Q := fun e => ∀ l ∈ e.reply.leases, l.op ≠ id) ?_ ⟨r, hr, rfl, rfl, rfl⟩
  · obtain ⟨⟨r', hr', hsame⟩, hnone⟩ := hrun
    exact ⟨⟨r', hr', hsame.state⟩, hnone⟩
  · rintro d e d' hrest ⟨hstep, hlate⟩
    obtain ⟨q, hq, hsame⟩ := hrest
    have hnot : ¬ LateRow e id q := fun hl => hlate ⟨id, q, hq, hset.of_same hsame, hl⟩
    obtain ⟨⟨q', hq', hsame'⟩, hnone⟩ := Sqlite.run_rests (hset.of_same hsame) ⟨q, hq, rfl, rfl, rfl⟩ hnot hstep.answered
    refine ⟨⟨q', hq', hsame'.state.trans hsame.state, hsame'.token.trans hsame.token, hsame'.kind.trans hsame.kind⟩, ?_⟩
    intro l hl
    obtain ⟨g, hg, rfl⟩ := List.mem_map.mp hl
    exact hnone g hg

/-- In either store, a run from a settled op in which no call is late leaves it as it is and never leases it. -/
theorem settled_stays (es₁ es₂ : List Entry) (id : PendingOpId) :
    (∀ (s₁ s₂ : MemSystem) (c : OpCell),
      Run MemStep MemSystem.start es₁ s₁ → Run TimelyStep s₁ es₂ s₂ → s₁.store.ops.get? id = some c → Settled c →
      (∃ c', s₂.store.ops.get? id = some c' ∧ c'.state = c.state) ∧ ∀ e ∈ es₂, ∀ l ∈ e.reply.leases, l.op ≠ id) ∧
    (∀ (d₁ d₂ : SqliteSystem) (r : OpRow),
      Run SqliteStep SqliteSystem.start es₁ d₁ → Run TimelyCall d₁ es₂ d₂ →
      d₁.store.pendingOp.get? id = some r → SettledRow r →
      (∃ r', d₂.store.pendingOp.get? id = some r' ∧ r'.state = r.state) ∧ ∀ e ∈ es₂, ∀ l ∈ e.reply.leases, l.op ≠ id) :=
  ⟨fun _ _ _ h₁ h₂ hc hset => mem_settled_stays h₁ h₂ hc hset,
    fun _ _ _ _ h₂ hr hset => sqlite_settled_stays h₂ hr hset⟩

namespace Sample

/-- The op, which a store numbers `id`, is queued, leased and done. -/
def succeededOnce (id : PendingOpId) : List (Call × UtcDateTime) :=
  [(.enqueue "a" edit, noon), (.claimOps "a" request 5, noon),
    (.mark (lease id 1) (.succeeded "m1"), noon)]

def succeededSystem : MemSystem := (MemSystem.start.trace Mem.run (succeededOnce 0)).2

def askedAgain (id : PendingOpId) : List (Call × UtcDateTime) :=
  [(.claimOne "a" id request, noon), (.cancel "a" id, noon)]

/-- The worker reports a second outcome under the lease that settled the op. -/
def markedAgain (id : PendingOpId) : List (Call × UtcDateTime) :=
  [(.mark (lease id 1) (.failed .retryable (some Duration.zero)), noon),
    (.claimOne "a" id request, noon)]

def succeededCell : OpCell :=
  { OpCell.queued "a" edit with
    state := .succeeded, token := 1, attempts := 1, settledAt := some noon }

def sqliteSucceeded : SqliteSystem := (SqliteSystem.start.trace Sqlite.run (succeededOnce 1)).2

def succeededRow : OpRow := { Sqlite.queuedRow "a" edit with state := .succeeded, token := 1, attempts := 1 }

theorem sqliteSucceeded_row : sqliteSucceeded.store.pendingOp.get? 1 = some succeededRow := by rfl

theorem sqliteSucceeded_run : Run SqliteStep SqliteSystem.start
    (SqliteSystem.start.trace Sqlite.run (succeededOnce 1)).1 sqliteSucceeded :=
  System.run_trace (by decide)

theorem succeededSystem_cell : succeededSystem.store.ops.get? 0 = some succeededCell := by rfl

theorem succeededOnce_run : Run MemStep MemSystem.start
    (MemSystem.start.trace Mem.run (succeededOnce 0)).1 succeededSystem :=
  System.run_trace (by decide)

end Sample

open Sample in
theorem settled_stays_askedAgain : ((∃ c', (succeededSystem.trace Mem.run (askedAgain 0)).2.store.ops.get? 0 = some c' ∧
        c'.state = .succeeded) ∧
      ∀ e ∈ (succeededSystem.trace Mem.run (askedAgain 0)).1, ∀ l ∈ e.reply.leases, l.op ≠ 0) ∧
    (∃ r', (sqliteSucceeded.trace Sqlite.run (askedAgain 1)).2.store.pendingOp.get? 1 = some r' ∧ r'.state = .succeeded) ∧
      ∀ e ∈ (sqliteSucceeded.trace Sqlite.run (askedAgain 1)).1, ∀ l ∈ e.reply.leases, l.op ≠ 1 := by
  have htail : Run TimelyStep succeededSystem (succeededSystem.trace Mem.run (askedAgain 0)).1
      (succeededSystem.trace Mem.run (askedAgain 0)).2 := by
    refine Run.mono ?_ (System.run_trace (by decide))
    intro s e he s' hstep
    refine ⟨hstep, ?_⟩
    rintro (⟨l, outcome, c, hcall, -⟩ | ⟨recs, r, c, hcall, -⟩)
    all_goals
      simp only [System.trace, askedAgain, List.mem_cons, List.not_mem_nil, or_false] at he
      rcases he with rfl | rfl <;> simp at hcall
  have hcalls : Run TimelyCall sqliteSucceeded (sqliteSucceeded.trace Sqlite.run (askedAgain 1)).1
      (sqliteSucceeded.trace Sqlite.run (askedAgain 1)).2 := by
    refine Run.mono ?_ (System.run_trace (by decide))
    intro d e he d' hstep
    refine ⟨hstep, ?_⟩
    rintro ⟨id, r, -, -, ⟨l, outcome, hcall, -⟩ | ⟨recs, rec, hcall, -⟩⟩
    all_goals
      simp only [System.trace, askedAgain, List.mem_cons, List.not_mem_nil, or_false] at he
      rcases he with rfl | rfl <;> simp at hcall
  exact ⟨(settled_stays _ _ 0).1 _ _ _ succeededOnce_run htail succeededSystem_cell (Or.inl rfl),
    (settled_stays _ _ 1).2 _ _ _ sqliteSucceeded_run hcalls sqliteSucceeded_row (Or.inl rfl)⟩

open Sample in
/-- Without that condition the outbox does lease a settled op again, and the durable store puts it back too. -/
theorem settled_leased_again : (¬ ∀ (es₁ es₂ : List Entry) (s₁ s₂ : MemSystem) (id : PendingOpId)
      (c : OpCell), Run MemStep MemSystem.start es₁ s₁ → Run MemStep s₁ es₂ s₂ →
      s₁.store.ops.get? id = some c → Settled c →
      (∃ c', s₂.store.ops.get? id = some c' ∧ c'.state = c.state) ∧ ∀ e ∈ es₂, ∀ l ∈ e.reply.leases, l.op ≠ id) ∧
    ¬ ∀ (es₁ es₂ : List Entry) (d₁ d₂ : SqliteSystem) (id : PendingOpId) (r : OpRow),
      Run SqliteStep SqliteSystem.start es₁ d₁ → Run SqliteStep d₁ es₂ d₂ →
      d₁.store.pendingOp.get? id = some r → SettledRow r → ∃ r', d₂.store.pendingOp.get? id = some r' ∧ r'.state = r.state := by
  constructor
  · intro h
    have hagain := h _ (succeededSystem.trace Mem.run (markedAgain 0)).1 _ _ 0 _ succeededOnce_run
      (System.run_trace (by decide)) succeededSystem_cell (Or.inl rfl)
    obtain ⟨c', hc', hs⟩ := hagain.1
    have hinFlight : (succeededSystem.trace Mem.run (markedAgain 0)).2.store.ops.get? 0 = some
        { OpCell.queued "a" edit with
          state := .inFlight, token := 2, leaseExpiry := some (lease 0 2).expiry, attempts := 2,
          nextAttemptAt := some noon, failureClass := some .retryable, settledAt := some noon } := by
      rfl
    rw [hinFlight, Option.some.injEq] at hc'
    rw [← hc'] at hs
    exact absurd hs (by decide)
  · intro h
    obtain ⟨r', hr', hs⟩ := h _ (sqliteSucceeded.trace Sqlite.run (markedAgain 1)).1 _ _ 1 _ sqliteSucceeded_run
      (System.run_trace (by decide)) sqliteSucceeded_row (Or.inl rfl)
    have hpending : ((sqliteSucceeded.trace Sqlite.run (markedAgain 1)).2.store.pendingOp.get? 1).map OpRow.state =
        some .pending := by
      decide +kernel
    rw [hr', Option.map_some, Option.some.injEq, hs] at hpending
    exact absurd hpending (by decide)

end Outbox
end SyncEngine
