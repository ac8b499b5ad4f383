import SyncEngine.Outbox.Writes

/-!
# The order writes take effect in

An op that failed and waits for its next attempt holds nothing, so one queued after it is leased before it.  Where every
op is leased only once those queued before it on its resource have settled, and the provider's answer comes while the
lease still holds the op, writes to a resource are accepted in the order they were queued.
-/

namespace SyncEngine
namespace Outbox

def PendingOp.isOrdered (op : PendingOp) : Bool :=
  (decide (op.kind = .mailEdit) && op.keywordEdit.isSome) || decide (op.kind = .mailDraftPut)

/-- Two ops whose order matters. -/
def Contend (ops : Ops) (i j : PendingOpId) : Prop :=
  ∃ a b, ops.get? i = some a ∧ ops.get? j = some b ∧ a.account = b.account ∧
    a.op.resourceKey = b.op.resourceKey ∧ PendingOp.isOrdered a.op = true ∧
    PendingOp.isOrdered b.op = true

/-- Of two ops that contend, the one queued first is accepted first. -/
def InOrder (s : Writes) : Prop :=
  s.accepted.Pairwise fun i j => Contend s.system.store.ops i j → i ≤ j

/-- An op is leased once every op before it that it contends with has settled, and accepted while its
lease holds it. -/
def InTurn (s : Writes) : WriteEvent → Prop
  | .call call now => ∀ l ∈ (s.entry call now).reply.leases, ∀ i, i < l.op →
      Contend s.system.store.ops i l.op →
      ((s.system.store.ops.get? i).all fun c => c.state.isTerminal) = true
  | .accept lease _ => ((s.system.store.ops.get? lease.op).any fun c =>
      decide (c.token = lease.token) && decide (c.state = .inFlight)) = true
  | _ => True

def OrderedStep (s : Writes) (e : WriteEvent) (s' : Writes) : Prop := WriteStep s e s' ∧ InTurn s e

theorem settled_of_isOrdered {c : OpCell} (h : PendingOp.isOrdered c.op = true)
    (hterminal : c.state.isTerminal = true) : Settled c := by
  have hkind : c.op.kind ≠ .mailSubmit := by
    intro hk
    simp [PendingOp.isOrdered, hk] at h
  cases hs : c.state with
  | succeeded => exact .inl hs
  | cancelled => exact .inr (.inl hs)
  | failed => exact .inr (.inr ⟨hs, hkind⟩)
  | pending =>
    rw [hs] at hterminal
    exact absurd hterminal (by simp [PendingOpState.isTerminal])
  | inFlight =>
    rw [hs] at hterminal
    exact absurd hterminal (by simp [PendingOpState.isTerminal])
  | needsConfirmation =>
    rw [hs] at hterminal
    exact absurd hterminal (by simp [PendingOpState.isTerminal])

/-! ## Ops over a step -/

section Step

variable {s s' : Writes} {e : WriteEvent} {id i j : PendingOpId} {c c' : OpCell}

theorem Attempting.contend_step (hi : Attempting s) (h : WriteStep s e s') {a b : OpCell}
    (ha : s.system.store.ops.get? i = some a) (hb : s.system.store.ops.get? j = some b)
    (hc : Contend s'.system.store.ops i j) : Contend s.system.store.ops i j := by
  obtain ⟨a', ha', hacc, hop, -⟩ := hi.kept_step h ha
  obtain ⟨b', hb', hacc', hop', -⟩ := hi.kept_step h hb
  obtain ⟨x, y, hx, hy, hsame, hres, hord, hord'⟩ := hc
  rw [ha', Option.some.injEq] at hx
  rw [hb', Option.some.injEq] at hy
  subst hx
  subst hy
  rw [hacc, hacc'] at hsame
  rw [hop, hop'] at hres
  rw [hop] at hord
  rw [hop'] at hord'
  exact ⟨a, b, ha, hb, hsame, hres, hord, hord'⟩

theorem Attempting.inFlight_step (hi : Attempting s) (h : WriteStep s e s')
    (hc' : s'.system.store.ops.get? id = some c') (hs : c'.state = .inFlight) :
    ∃ c, s.system.store.ops.get? id = some c ∧ (c.state = .inFlight ∨
      ∃ call now, e = .call call now ∧ ∃ l ∈ (s.entry call now).reply.leases, l.op = id) := by
  rcases hi.system_step h with he | ⟨call, now, hmakes, hstep⟩
  · exact ⟨c', he ▸ hc', .inl hs⟩
  · rcases run_cases hstep.answered with ⟨account, op, -, -, hops, -⟩ | ha
    · rw [hops, Table.get?_insert] at hc'
      by_cases hnew : id = s.system.store.nextOp
      · rw [if_pos hnew, Option.some.injEq] at hc'
        rw [← hc'] at hs
        exact absurd hs (by simp [OpCell.queued])
      · rw [if_neg hnew] at hc'
        exact ⟨c', hc', .inl hs⟩
    · obtain ⟨c, hc⟩ := ha.of_cell hc'
      refine ⟨c, hc, ?_⟩
      obtain ⟨m, hpath, hcase⟩ := ha.cell hc
      rcases hcase with ⟨hm, -⟩ | ⟨g, hg, hid, -, -⟩
      · rw [hm, Option.some.injEq] at hc'
        subst hc'
        exact .inl (hpath.inFlight hs)
      · obtain ⟨mid, -, hclaim⟩ := ha.ops
        obtain ⟨r, hgr⟩ := hclaim.granted g hg
        have hl : g.lease ∈ (s.entry call now).reply.leases := List.mem_map.mpr ⟨g, hg, rfl⟩
        cases hmakes with
        | plain _ => exact .inr ⟨call, now, rfl, g.lease, hl, hgr.op.trans hid⟩
        | outcome _ _ _ =>
          exact absurd hl (by simp [Writes.entry, Reply.leases, Reply.granted, Mem.run])

end Step

/-! ## The order -/

/-- What stands before an op in flight, or an op accepted, has settled. -/
structure Ordering (s : Writes) : Prop where
  attempting : Attempting s
  known : ∀ j ∈ s.accepted, ∃ c, s.system.store.ops.get? j = some c
  behind : ∀ i j a b, s.system.store.ops.get? i = some a → s.system.store.ops.get? j = some b →
    i < j → Contend s.system.store.ops i j → (j ∈ s.accepted ∨ b.state = .inFlight) → Settled a
  order : InOrder s

theorem ordering_start : Ordering Writes.start := ⟨attempting_start, by simp [Writes.start],
    by intro i j a b ha; exact absurd ha (by simp [Writes.start, MemSystem.start, Mem.new]),
    List.Pairwise.nil⟩

/-- What stands behind an op stays settled, over a step that accepts nothing new. -/
theorem Ordering.behind_step {s s' : Writes} {e : WriteEvent} (ho : Ordering s) (h : OrderedStep s e s')
    (haccepted : ∀ j, j ∈ s'.accepted → j ∈ s.accepted ∨ ∃ b, s.system.store.ops.get? j = some b ∧ b.state = .inFlight) :
    ∀ i j a b, s'.system.store.ops.get? i = some a → s'.system.store.ops.get? j = some b →
      i < j → Contend s'.system.store.ops i j → (j ∈ s'.accepted ∨ b.state = .inFlight) →
      Settled a := by
  intro i j a' b' ha' hb' hlt hcontend hcase
  obtain ⟨hstep, hturn⟩ := h
  have hi := ho.attempting
  -- the newer op was there before the step, and so was the older
  obtain ⟨b, hb, hbefore⟩ : ∃ b, s.system.store.ops.get? j = some b ∧ (j ∈ s.accepted ∨ b.state = .inFlight ∨
        ∃ call now, e = .call call now ∧ ∃ l ∈ (s.entry call now).reply.leases, l.op = j) := by
    rcases hcase with hacc | hflight
    · rcases haccepted j hacc with hacc | ⟨b, hb, hflight⟩
      · obtain ⟨b, hb⟩ := ho.known j hacc
        exact ⟨b, hb, .inl hacc⟩
      · exact ⟨b, hb, .inr (.inl hflight)⟩
    · obtain ⟨b, hb, hcase⟩ := hi.inFlight_step hstep hb' hflight
      exact ⟨b, hb, .inr hcase⟩
  obtain ⟨a, ha⟩ : ∃ a, s.system.store.ops.get? i = some a := by
    have hj := hi.fenced.fresh j b hb
    rcases hi.of_step hstep ha' with ha | ⟨hnew, -⟩
    · exact ha
    · -- an op the step queued comes after every other
      rw [hnew] at hlt
      exact absurd hj (Nat.lt_asymm hlt)
  have hcontend' := hi.contend_step hstep ha hb hcontend
  have hsettled : Settled a := by
    rcases hbefore with hacc | hflight | ⟨call, now, rfl, l, hl, rfl⟩
    · exact ho.behind i j a b ha hb hlt hcontend' (.inl hacc)
    · exact ho.behind i j a b ha hb hlt hcontend' (.inr hflight)
    · have hterminal : a.state.isTerminal = true := by
        have hall := hturn l hl i hlt hcontend'
        rwa [ha] at hall
      obtain ⟨x, -, hx, -, -, -, hord, -⟩ := hcontend'
      rw [ha, Option.some.injEq] at hx
      subst hx
      exact settled_of_isOrdered hord hterminal
  obtain ⟨d, hd, hkeeps⟩ := hi.settled_step hstep ha hsettled
  rw [ha', Option.some.injEq] at hd
  subst hd
  exact hsettled.of_keeps hkeeps

theorem Ordering.step {s s' : Writes} {e : WriteEvent} (ho : Ordering s) (h : OrderedStep s e s') : Ordering s' := by
  have hi := ho.attempting
  have hknown : ∀ j ∈ s.accepted, ∃ c, s'.system.store.ops.get? j = some c := by
    intro j hj
    obtain ⟨c, hc⟩ := ho.known j hj
    obtain ⟨c', hc', -⟩ := hi.kept_step h.1 hc
    exact ⟨c', hc'⟩
  have hold : s.accepted.Pairwise fun i j => Contend s'.system.store.ops i j → i ≤ j := by
    refine List.Pairwise.imp_of_mem ?_ ho.order
    intro i j hmem hmem' hle hcontend
    obtain ⟨a, ha⟩ := ho.known i hmem
    obtain ⟨b, hb⟩ := ho.known j hmem'
    exact hle (hi.contend_step h.1 ha hb hcontend)
  have hsame : s'.accepted = s.accepted → Ordering s' := by
    intro he
    refine ⟨hi.step h.1, ?_, ho.behind_step h ?_, ?_⟩
    · rw [he]
      exact hknown
    · intro j hj
      rw [he] at hj
      exact .inl hj
    · unfold InOrder
      rw [he]
      exact hold
  cases hcases : h.1.cases with
  | call hplain hpresents => exact hsame rfl
  | report hp hout => exact hsame rfl
  | refuse hp => exact hsame rfl
  | lose => exact hsame rfl
  | @accept lease providerKey hp =>
    obtain ⟨c, hc, hflight⟩ : ∃ c, s.system.store.ops.get? lease.op = some c ∧ c.state = .inFlight := by
      have hheld := h.2
      unfold InTurn at hheld
      simp only [Option.any_eq_true, Bool.and_eq_true, decide_eq_true_eq] at hheld
      obtain ⟨c, hc, -, hflight⟩ := hheld
      exact ⟨c, hc, hflight⟩
    refine ⟨hi.step h.1, ?_, ho.behind_step h ?_, ?_⟩
    · intro j hj
      rcases List.mem_append.mp hj with hj | hj
      · exact hknown j hj
      · rw [List.mem_singleton.mp hj]
        exact ⟨c, hc⟩
    · intro j hj
      rcases List.mem_append.mp hj with hj | hj
      · exact .inl hj
      · rw [List.mem_singleton.mp hj]
        exact .inr ⟨c, hc, hflight⟩
    · refine List.pairwise_append.mpr ⟨hold, List.pairwise_singleton _ _, ?_⟩
      intro i hmem j hj hcontend
      rw [List.mem_singleton.mp hj] at hcontend ⊢
      by_contra hnot
      have hlt : lease.op < i := Nat.lt_of_not_le hnot
      -- accepted before an older op that is in flight now, so that one would have settled
      obtain ⟨a, b, ha, hb, hacc, hres, hord, hord'⟩ := hcontend
      have hsettled := ho.behind lease.op i b a hb ha hlt ⟨b, a, hb, ha, hacc.symm, hres.symm, hord', hord⟩ (.inl hmem)
      have hbc : b = c := Option.some.inj (hb.symm.trans hc)
      rw [hbc] at hsettled
      exact hsettled.state_ne.2.1 hflight

/-- In a run whose ops are leased in turn and accepted while held, contending writes are accepted in
the order they were queued. -/
theorem accepted_in_order {es : List WriteEvent} {s : Writes} (h : Run OrderedStep Writes.start es s) : InOrder s :=
  (h.preserves (fun _ _ _ ho hstep => ho.step hstep) ordering_start).order

namespace Sample

/-- Sets and then clears a keyword of one message. -/
def setSeen : PendingOp :=
  { idempotencyKey := "set", kind := .mailEdit, resourceKey := "mail:m1", payload := "set",
    keywordEdit := some ⟨"m1", {"$seen"}, ∅⟩ }

def clearSeen : PendingOp :=
  { idempotencyKey := "clear", kind := .mailEdit, resourceKey := "mail:m1", payload := "clear",
    keywordEdit := some ⟨"m1", ∅, {"$seen"}⟩ }

/-- Half a minute after noon, when the first attempt's backoff has passed. -/
def later : UtcDateTime := ⟨379409227230000000000, halfPast_lt⟩

/-- The first edit fails and waits, the second goes out, and then the first is tried again. -/
def overtaken : List WriteEvent :=
  [.call (.enqueue "a" setSeen) noon, .call (.claimOne "a" 0 request) noon,
    .refuse (lease 0 1) .retryable none, .report (lease 0 1) noon,
    .call (.enqueue "a" clearSeen) noon, .call (.claimOne "a" 1 request) noon,
    .accept (lease 1 1) "m1", .report (lease 1 1) noon,
    .call (.claimOne "a" 0 request) later,
    .accept ⟨"a", 0, 2, "worker", ⟨379409227260000000000, minutePast_lt⟩⟩ "m1"]

/-- Both edits go out as they are queued. -/
def inTurn : List WriteEvent :=
  [.call (.enqueue "a" setSeen) noon, .call (.claimOne "a" 0 request) noon,
    .accept (lease 0 1) "m1", .report (lease 0 1) noon,
    .call (.enqueue "a" clearSeen) noon, .call (.claimOne "a" 1 request) noon,
    .accept (lease 1 1) "m1"]

end Sample

instance {i j : PendingOpId} {ops : Ops} : Decidable (Contend ops i j) :=
  match ha : ops.get? i, hb : ops.get? j with
  | some a, some b =>
    decidable_of_iff (a.account = b.account ∧ a.op.resourceKey = b.op.resourceKey ∧
        PendingOp.isOrdered a.op = true ∧ PendingOp.isOrdered b.op = true)
      ⟨fun h => ⟨a, b, ha, hb, h⟩, fun ⟨x, y, hx, hy, h⟩ => by
        rw [ha, Option.some.injEq] at hx
        rw [hb, Option.some.injEq] at hy
        subst hx
        subst hy
        exact h⟩
  | none, _ => isFalse fun ⟨_, _, hx, _⟩ => by simp [ha] at hx
  | some _, none => isFalse fun ⟨_, _, _, hy, _⟩ => by simp [hb] at hy

open Sample in
/-- Left to itself the outbox lets a newer write overtake an older one that waits. -/
theorem overtaken_out_of_order : ¬∀ es s, Run WriteStep Writes.start es s → InOrder s := by
  intro h
  obtain ⟨s, hs⟩ : ∃ s, overtaken.foldlM Writes.take Writes.start = some s := Option.isSome_iff_exists.mp (by decide)
  have horder : InOrder s := h overtaken s (Run.of_foldlM hs)
  have haccepted : (overtaken.foldlM Writes.take Writes.start).any (fun s =>
      decide (s.accepted = [1, 0] ∧ Contend s.system.store.ops 1 0)) = true := by decide
  rw [hs] at haccepted
  obtain ⟨hlog, hcontend⟩ := of_decide_eq_true haccepted
  unfold InOrder at horder
  rw [hlog] at horder
  exact absurd ((List.pairwise_cons.mp horder).1 0 List.mem_cons_self hcontend) (by decide)

instance {s : Writes} {e : WriteEvent} : Decidable (InTurn s e) :=
  match e with
  | .call _ _ => by
    unfold InTurn
    infer_instance
  | .accept _ _ => by
    unfold InTurn
    infer_instance
  | .refuse _ _ _ => isTrue trivial
  | .report _ _ => isTrue trivial
  | .lose _ => isTrue trivial

open Sample in
theorem accepted_in_order_inTurn : ∃ s, Run OrderedStep Writes.start inTurn s ∧ s.accepted = [0, 1] ∧ InOrder s := by
  obtain ⟨s, hs⟩ : ∃ s, inTurn.foldlM (fun s e => if InTurn s e then s.take e else none)
      Writes.start = some s := Option.isSome_iff_exists.mp (by decide)
  have hrun : Run OrderedStep Writes.start inTurn s := by
    refine Run.mono ?_ (Run.of_foldlM hs)
    intro s e _ s' hstep
    by_cases hturn : InTurn s e
    · rw [if_pos hturn] at hstep
      exact ⟨hstep, hturn⟩
    · rw [if_neg hturn] at hstep
      simp at hstep
  have haccepted : (inTurn.foldlM (fun s e => if InTurn s e then s.take e else none)
      Writes.start).any (fun s => decide (s.accepted = [0, 1])) = true := by decide
  rw [hs] at haccepted
  exact ⟨s, hrun, of_decide_eq_true haccepted, accepted_in_order hrun⟩

end Outbox
end SyncEngine
