import SyncEngine.Outbox.Writes

/-!
# A save is kept

The ops of a draft are saves, none of them waits for a confirmation, and none has failed for good while
its attempts are not spent.  Once a save is queued it is the only one that has not settled, so whatever
the provider accepts from then on is that save.
-/

namespace SyncEngine
namespace Outbox

variable {τ : Type} {box : DraftBox τ}

/-! ## One save op -/

/-- An op of the draft. -/
structure Fine (box : DraftBox τ) (c : OpCell) : Prop where
  account : c.account = box.account
  kind : c.op.kind = .mailDraftPut
  resource : c.op.resourceKey = box.resourceKey
  waits : c.state ≠ .needsConfirmation
  spent : c.state = .failed → maxAttempts ≤ c.attempts

variable {now : UtcDateTime}

theorem OpCell.record_retryable {c c' : OpCell} {cls : FailureClass} {retryAfter : Option Duration} (hcls : cls.isRetryable = true)
    (h : c.record (.failed cls retryAfter) now = .ok c') :
    c'.state = .pending ∨ (c'.state = .failed ∧ maxAttempts ≤ c'.attempts) := by
  obtain ⟨r, hr, rfl⟩ := OpCell.record_eq_ok.mp h
  unfold OpCell.recorded recordOutcome at hr
  dsimp only at hr
  by_cases hparks : parks (some c.op.kind) (min (c.attempts + 1) u32Max) cls = true
  · rw [if_pos hparks] at hr
    split at hr
    · cases hr
      exact .inl rfl
    · simp at hr
  · rw [if_neg hparks] at hr
    cases hr
    refine .inr ⟨rfl, ?_⟩
    show maxAttempts ≤ min (c.attempts + 1) u32Max
    by_contra hlimit
    have hleft := decide_eq_true (Nat.lt_of_not_le hlimit)
    exact hparks (by simp only [parks, hcls, Bool.true_and, hleft, Bool.or_true])

/-- The outcomes a save's attempt ends with. -/
def Retried (e : Entry) : Prop :=
  ∀ l outcome, e.call = .mark l outcome → (∃ key, outcome = .succeeded key) ∨
    ∃ cls retryAfter, outcome = .failed cls retryAfter ∧ cls.isRetryable = true

theorem Changes.keeps_fine {e : Entry} {id : PendingOpId} {c c' : OpCell} {x : Change}
    (hretried : Retried e) (hx : Allows e id x) (h : Changes e.now c x c') (hf : Fine box c) :
    Fine box c' := by
  obtain ⟨hacc, hop, -⟩ := h.frame
  have hkeep : c'.state ≠ .needsConfirmation → (c'.state = .failed → maxAttempts ≤ c'.attempts) →
      Fine box c' := fun hwaits hspent =>
    ⟨hacc.trans hf.account, by rw [hop]; exact hf.kind, by rw [hop]; exact hf.resource, hwaits, hspent⟩
  cases h with
  | recover hs hr =>
    obtain ⟨d, hd, rfl⟩ := OpCell.recover_eq_ok.mp hr
    have hinterrupted : c.interrupted = .failed .retryable none := interruptedOutcome_of_ne (by rw [hf.kind]; simp) _
    rw [hinterrupted] at hd
    rcases OpCell.record_retryable rfl hd with hpending | ⟨hfailed, hspent⟩
    · exact hkeep (by simp [hpending]) (by simp [hpending])
    · exact hkeep (by simp [hfailed]) (fun _ => hspent)
  | @mark _ l outcome hadm hr =>
    rcases hretried l outcome hx.1 with ⟨key, rfl⟩ | ⟨cls, retryAfter, rfl, hcls⟩
    · obtain ⟨keeps, hlands, -⟩ := OpCell.record_lands hr
      have hsucceeded : c'.state = .succeeded := hlands.1
      exact hkeep (by simp [hsucceeded]) (by simp [hsucceeded])
    · rcases OpCell.record_retryable hcls hr with hpending | ⟨hfailed, hspent⟩
      · exact hkeep (by simp [hpending]) (by simp [hpending])
      · exact hkeep (by simp [hfailed]) (fun _ => hspent)
  | handOver _ hs => exact hkeep hf.waits hf.spent
  | renew hs => exact hkeep hf.waits hf.spent
  | cancel hn =>
    rw [cancelAct_of_none hn]
    exact ⟨hf.account, hf.kind, hf.resource, by simp, by simp⟩
  | retryNow hn =>
    have hpending := retryNowAct_state hn
    exact hkeep (by simp [hpending]) (by simp [hpending])
  | confirm hs => exact absurd hs hf.waits
  | reconcile _ => exact ⟨hf.account, hf.kind, hf.resource, by simp [Mem.settleDelivered],
      by simp [Mem.settleDelivered]⟩
  | stamp _ => exact ⟨hf.account, hf.kind, hf.resource, hf.waits, hf.spent⟩

theorem Fine.settled {c : OpCell} (hf : Fine box c) (h : c.state.isTerminal = true) : Settled c := by
  cases hs : c.state with
  | succeeded => exact .inl hs
  | cancelled => exact .inr (.inl hs)
  | failed => exact .inr (.inr ⟨hs, by rw [hf.kind]; simp⟩)
  | pending | inFlight | needsConfirmation =>
    rw [hs] at h
    exact absurd h (by simp [PendingOpState.isTerminal])

theorem isTerminal_of_settled {c : OpCell} (h : Settled c) : c.state.isTerminal = true := by
  rcases h with hs | hs | ⟨hs, -⟩ <;> rw [hs] <;> rfl

/-! ## The outbox under saves and drains -/

/-- What may happen to the outbox: saves are queued, puts accepted while held, failures retried. -/
def Permitted (box : DraftBox τ) (w : Writes) : WriteEvent → Prop
  | .call call _ => ∀ account op, call = .enqueue account op →
      account = box.account ∧ ∃ put, op = box.saveOp put
  | .accept lease _ => ∃ c, w.system.store.ops.get? lease.op = some c ∧ c.token = lease.token ∧
      c.state = .inFlight
  | .refuse _ cls _ => cls.isRetryable = true
  | _ => True

structure Based (box : DraftBox τ) (w : Writes) : Prop where
  attempting : Attempting w
  fine : ∀ id c, w.system.store.ops.get? id = some c → Fine box c
  keyed : ∀ key id, w.system.store.idempotency.lookup (box.account, key) = some id ↔
    ∃ c, w.system.store.ops.get? id = some c ∧ c.op.idempotencyKey = key
  retryable : ∀ l cls retryAfter, (l, AttemptPhase.refused cls retryAfter) ∈ w.attempts →
    cls.isRetryable = true
  last : ∀ l key, (l, AttemptPhase.accepted key) ∈ w.attempts →
    ∀ c, w.system.store.ops.get? l.op = some c → c.token = l.token →
      w.accepted.getLast? = some l.op

theorem based_start (box : DraftBox τ) : Based box Writes.start := by
  refine ⟨attempting_start, ?_, ?_, ?_, ?_⟩
  · intro id c hc
    exact absurd hc (by simp [Writes.start, MemSystem.start, Mem.new])
  · intro key id
    simp [Writes.start, MemSystem.start, Mem.new]
  · intro l cls retryAfter h
    exact absurd h List.not_mem_nil
  · intro l key h
    exact absurd h List.not_mem_nil

section Step

variable {w w' : Writes} {e : WriteEvent}

variable {call : Call} {now : UtcDateTime}

theorem Based.retried (hb : Based box w) (hmakes : Makes w e call now) : Retried (w.entry call now) := by
  intro l outcome hcall
  have hcall : call = .mark l outcome := hcall
  cases hmakes with
  | plain hplain =>
    rw [hcall] at hplain
    exact absurd hplain (by simp [Call.plain])
  | @outcome lease now phase outcome' hmem _ hout =>
    cases hcall
    cases phase with
    | calling => exact absurd hout (by simp [AttemptPhase.outcome])
    | accepted key => exact .inl ⟨key, (Option.some.inj hout).symm⟩
    | refused cls retryAfter =>
      exact .inr ⟨cls, retryAfter, (Option.some.inj hout).symm, hb.retryable _ cls retryAfter hmem⟩

variable {id : PendingOpId} {c' : OpCell}

theorem Based.fine_step (hb : Based box w) (h : WriteStep w e w') (hp : Permitted box w e) (hc' : w'.system.store.ops.get? id = some c') :
    Fine box c' := by
  have hi := hb.attempting
  rcases hi.system_step h with he | ⟨call, now, hmakes, hstep⟩
  · exact hb.fine id c' (he ▸ hc')
  · rcases run_cases hstep.answered with ⟨account, op, hcall, -, hops, -⟩ | ha
    · have hcall : call = .enqueue account op := hcall
      rw [hops, Table.get?_insert] at hc'
      by_cases hnew : id = w.system.store.nextOp
      · rw [if_pos hnew, Option.some.injEq] at hc'
        subst hc'
        cases hmakes with
        | plain _ =>
          obtain ⟨rfl, put, rfl⟩ := hp account op hcall
          exact ⟨rfl, rfl, rfl, by simp [OpCell.queued], by simp [OpCell.queued]⟩
        | outcome _ _ _ => simp at hcall
      · rw [if_neg hnew] at hc'
        exact hb.fine id c' hc'
    · have hretried := hb.retried hmakes
      obtain ⟨c, hc⟩ := ha.of_cell hc'
      obtain ⟨m, hpath, hcase⟩ := ha.cell hc
      have hm : Fine box m := hpath.preserves (fun _ _ _ hf hx hch => hch.keeps_fine hretried hx hf) (hb.fine id c hc)
      rcases hcase with ⟨hget, -⟩ | ⟨g, -, -, -, hget⟩
      · rw [hget, Option.some.injEq] at hc'
        subst hc'
        exact hm
      · rw [hget, Option.some.injEq] at hc'
        subst hc'
        exact ⟨hm.account, hm.kind, hm.resource, by simp [QueuedRow.leased], by simp [QueuedRow.leased]⟩

theorem Based.keyed_step (hb : Based box w) (h : WriteStep w e w') (hp : Permitted box w e)
    (key : IdempotencyKey) (id : PendingOpId) :
    w'.system.store.idempotency.lookup (box.account, key) = some id ↔
      ∃ c, w'.system.store.ops.get? id = some c ∧ c.op.idempotencyKey = key := by
  have hi := hb.attempting
  -- a step that queues nothing keeps the names and the envelopes
  have hsame : w'.system.store.idempotency = w.system.store.idempotency →
      (∀ j c', w'.system.store.ops.get? j = some c' → ∃ c, w.system.store.ops.get? j = some c) →
      (w'.system.store.idempotency.lookup (box.account, key) = some id ↔
        ∃ c, w'.system.store.ops.get? id = some c ∧ c.op.idempotencyKey = key) := by
    intro hnames hold
    rw [hnames, hb.keyed]
    constructor
    · intro hex
      obtain ⟨c, hc, hkey⟩ := hex
      obtain ⟨c', hc', -, hop, -⟩ := hi.kept_step h hc
      exact ⟨c', hc', by rw [hop, hkey]⟩
    · intro hex
      obtain ⟨c', hc', hkey⟩ := hex
      obtain ⟨c, hc⟩ := hold id c' hc'
      obtain ⟨d, hd, -, hop, -⟩ := hi.kept_step h hc
      rw [hc', Option.some.injEq] at hd
      subst hd
      exact ⟨c, hc, by rw [← hop, hkey]⟩
  rcases hi.system_step h with he | ⟨call, now, hmakes, hstep⟩
  · rw [he]
    exact hb.keyed key id
  · rcases run_cases hstep.answered with ⟨account, op, hcall, -, hops, -⟩ | ha
    · have hcall : call = .enqueue account op := hcall
      subst hcall
      have hanswer := hstep.answered
      cases hmakes
      obtain ⟨rfl, put, rfl⟩ := hp account op rfl
      have hstore : (Mem.enqueue w.system.store box.account (box.saveOp put)).1 = w'.system.store :=
        congrArg Prod.fst hanswer
      unfold Mem.enqueue at hstore
      cases hlook : w.system.store.idempotency.lookup (box.account, (box.saveOp put).idempotencyKey) with
      | some j =>
        rw [hlook] at hstore
        have hstore : w.system.store = w'.system.store := hstore
        rw [← hstore]
        exact hb.keyed key id
      | none =>
        rw [hlook] at hstore
        rw [← hstore]
        show ((((box.account, (box.saveOp put).idempotencyKey), w.system.store.nextOp) ::
          w.system.store.idempotency).lookup (box.account, key) = some id) ↔
          ∃ c, (w.system.store.ops.insert w.system.store.nextOp
            (OpCell.queued box.account (box.saveOp put))).get? id = some c ∧ _
        simp only [Table.get?_insert]
        by_cases hkey : key = (box.saveOp put).idempotencyKey
        · subst hkey
          rw [List.lookup_cons_self, Option.some.injEq]
          constructor
          · intro hid
            exact ⟨_, if_pos hid.symm, rfl⟩
          · intro hex
            obtain ⟨c, hc, hck⟩ := hex
            by_contra hne
            rw [if_neg fun e => hne e.symm] at hc
            have hother := (hb.keyed _ id).mpr ⟨c, hc, hck⟩
            rw [hlook] at hother
            simp at hother
        · have hne : ((box.account, key) == (box.account, (box.saveOp put).idempotencyKey)) = false := by simpa using hkey
          rw [List.lookup_cons, hne]
          show w.system.store.idempotency.lookup (box.account, key) = some id ↔ _
          rw [hb.keyed]
          constructor
          · intro hex
            obtain ⟨c, hc, hck⟩ := hex
            have hold : id ≠ w.system.store.nextOp := Nat.ne_of_lt (hi.fenced.fresh id c hc)
            exact ⟨c, (if_neg hold).trans hc, hck⟩
          · intro hex
            obtain ⟨c, hc, hck⟩ := hex
            by_cases hnew : id = w.system.store.nextOp
            · rw [if_pos hnew, Option.some.injEq] at hc
              subst hc
              exact absurd hck.symm hkey
            · rw [if_neg hnew] at hc
              exact ⟨c, hc, hck⟩
    · exact hsame ha.idempotency fun j c' hc' => ha.of_cell hc'

theorem Based.one_inFlight (hb : Based box w) {i j : PendingOpId} {a b : OpCell}
    (ha : w.system.store.ops.get? i = some a) (hc : w.system.store.ops.get? j = some b)
    (hs : a.state = .inFlight) (hs' : b.state = .inFlight) : i = j := by
  have hfa := hb.fine i a ha
  have hfb := hb.fine j b hc
  exact oneInFlight_of_exclusive hb.attempting.exclusive i j a b ha hc hs hs'
    (hfa.account.trans hfb.account.symm) (hfa.resource.trans hfb.resource.symm)

theorem Based.step (hb : Based box w) (h : WriteStep w e w') (hp : Permitted box w e) : Based box w' := by
  have hi := hb.attempting
  -- an attempt whose token is current after the step was current before it
  have hbefore : ∀ l key, (l, AttemptPhase.accepted key) ∈ w.attempts →
      ∀ c', w'.system.store.ops.get? l.op = some c' → c'.token = l.token → w.accepted.getLast? = some l.op := by
    intro l key hl c' hc' ht
    obtain ⟨c, hc, -, hle⟩ := hi.fenced.known l (hi.issued _ hl)
    obtain ⟨d, hd, -, -, hmono⟩ := hi.kept_step h hc
    rw [hc', Option.some.injEq] at hd
    subst hd
    exact hb.last l key hl c hc (by omega)
  refine ⟨hi.step h, fun id c' hc' => hb.fine_step h hp hc', hb.keyed_step h hp, ?_, ?_⟩
  · intro l cls retryAfter hl
    cases h.cases with
    | call hplain hpresents =>
      rcases List.mem_append.mp hl with hl | hl
      · exact hb.retryable l cls retryAfter hl
      · obtain ⟨l', -, he⟩ := List.mem_map.mp hl
        exact absurd (congrArg Prod.snd he) (by simp)
    | accept hphase =>
      rcases List.mem_cons.mp hl with he | hl
      · exact absurd (congrArg Prod.snd he) (by simp)
      · exact hb.retryable l cls retryAfter (Writes.mem_without.mp hl).1
    | refuse hphase =>
      rcases List.mem_cons.mp hl with he | hl
      · cases he
        exact hp
      · exact hb.retryable l cls retryAfter (Writes.mem_without.mp hl).1
    | report hphase hout => exact hb.retryable l cls retryAfter (Writes.mem_without.mp hl).1
    | lose => exact hb.retryable l cls retryAfter (Writes.mem_without.mp hl).1
  · intro l key hl
    cases h.cases with
    | call hplain hpresents =>
      rcases List.mem_append.mp hl with hl | hl
      · exact hbefore l key hl
      · obtain ⟨l', -, he⟩ := List.mem_map.mp hl
        exact absurd (congrArg Prod.snd he) (by simp)
    | @accept lease providerKey hphase =>
      intro c hc ht
      show (w.accepted ++ [lease.op]).getLast? = some l.op
      rw [List.getLast?_append, List.getLast?_singleton, Option.some_or]
      rcases List.mem_cons.mp hl with he | hl
      · cases he
        rfl
      · -- the op accepted now is in flight, and so is the one accepted before
        obtain ⟨d, hd, -, hflight⟩ := hp
        have hcurrent := hi.current _ (Writes.mem_without.mp hl).1 c hc ht
        rw [hb.one_inFlight hd hc hflight hcurrent]
    | refuse hphase =>
      rcases List.mem_cons.mp hl with he | hl
      · exact absurd (congrArg Prod.snd he) (by simp)
      · exact hbefore l key (Writes.mem_without.mp hl).1
    | report hphase hout => exact hbefore l key (Writes.mem_without.mp hl).1
    | lose => exact hbefore l key (Writes.mem_without.mp hl).1

/-- The calls that withdraw nothing and settle nothing of themselves. -/
def Quiet : Call → Prop
  | .list _ | .claimOne _ _ _ | .renew _ _ | .mark _ _ => True
  | _ => False

/-- How an op settles under a quiet call: its attempts are spent, or the call reports a success under
the token it had. -/
theorem Based.settles (hb : Based box w) {system : MemSystem}
    (hquiet : Quiet call) (hretried : Retried (w.entry call now))
    (hstep : MemStep w.system (w.entry call now) system) {c : OpCell} (hc : w.system.store.ops.get? id = some c)
    (hopen : ¬Settled c) (hc' : system.store.ops.get? id = some c') (hset : Settled c') :
    c'.state = .failed ∨ (c'.state = .succeeded ∧
      ∃ l key, call = .mark l (.succeeded key) ∧ l.op = id ∧ l.token = c.token) := by
  have hi := hb.attempting
  rcases run_cases hstep.answered with ⟨account, op, hcall, -⟩ | ha
  · have hcall : call = .enqueue account op := hcall
    rw [hcall] at hquiet
    exact absurd hquiet (by simp [Quiet])
  obtain ⟨m, hpath, hcase⟩ := ha.cell hc
  have hm := @Path.preserves _ _ _ _ (fun d => c.token ≤ d.token ∧ d.op = c.op ∧
      d.state ≠ .needsConfirmation ∧ (¬Settled d ∨ d.state = .failed ∨ (d.state = .succeeded ∧
        ∃ l key, call = .mark l (.succeeded key) ∧ l.op = id ∧ c.token ≤ l.token))) ?_ hpath
      ⟨Nat.le_refl _, rfl, (hb.fine id c hc).waits, .inl hopen⟩
  · rcases hcase with ⟨hget, -⟩ | ⟨g, -, -, -, hget⟩
    · rw [hget, Option.some.injEq] at hc'
      subst hc'
      obtain ⟨-, -, -, hopen' | hfailed | ⟨hsucceeded, l, key, hcall, hop, hle⟩⟩ := hm
      · exact absurd hset hopen'
      · exact .inl hfailed
      · refine .inr ⟨hsucceeded, l, key, hcall, hop, ?_⟩
        have hissued : l ∈ w.system.issued := hstep.presented l (by
          show call.presents = some l
          rw [hcall]
          rfl)
        obtain ⟨d, hd, -, hknown⟩ := hi.fenced.known l hissued
        rw [hop, hc, Option.some.injEq] at hd
        subst hd
        omega
    · rw [hget, Option.some.injEq] at hc'
      subst hc'
      exact absurd rfl hset.state_ne.2.1
  · intro d x d' hd hx hch
    obtain ⟨hle, hop, hwaits, hd⟩ := hd
    obtain ⟨-, hop', hmono⟩ := hch.frame
    have hkind : d.op.kind ≠ .mailSubmit := by
      rw [hop, (hb.fine id c hc).kind]
      simp
    refine ⟨by omega, hop'.trans hop, ?_⟩
    cases hch with
    | recover hs hr =>
      obtain ⟨r, hrec, rfl⟩ := OpCell.recover_eq_ok.mp hr
      have hinterrupted : d.interrupted = .failed .retryable none := interruptedOutcome_of_ne hkind _
      rw [hinterrupted] at hrec
      rcases OpCell.record_retryable rfl hrec with hpending | ⟨hfailed, -⟩
      · have hpending : r.state = .pending := hpending
        exact ⟨by simp [hpending], .inl fun hset => hset.state_ne.1 hpending⟩
      · have hfailed : r.state = .failed := hfailed
        exact ⟨by simp [hfailed], .inr (.inl hfailed)⟩
    | @mark _ l outcome hadm hr =>
      obtain ⟨keeps, hlands, -⟩ := OpCell.record_lands hr
      have hcall : call = .mark l outcome := hx.1
      have htoken : l.token = d.token := by
        simp only [Mem.admits, Bool.or_eq_true, Bool.and_eq_true, decide_eq_true_eq] at hadm
        rcases hadm with ht | ⟨hs, -⟩
        · exact ht
        · exact absurd hs hwaits
      cases outcome with
      | succeeded key =>
        have hsucceeded : d'.state = .succeeded := hlands.1
        exact ⟨by simp [hsucceeded], .inr (.inr ⟨hsucceeded, l, key, hcall, hx.2.1, by omega⟩)⟩
      | failed cls retryAfter =>
        rcases hlands.1 with hpending | hfailed
        · exact ⟨by simp [hpending], .inl fun hset => hset.state_ne.1 hpending⟩
        · exact ⟨by simp [hfailed], .inr (.inl hfailed)⟩
      | needsConfirmation detail =>
        rcases hretried l _ hcall with ⟨key, he⟩ | ⟨cls, retryAfter, he, -⟩
        · simp at he
        · simp at he
    | handOver _ hs => exact ⟨hwaits, .inl fun hset => hset.state_ne.2.1 hs⟩
    | renew hs => exact ⟨hwaits, .inl fun hset => hset.state_ne.2.1 hs⟩
    | cancel _ =>
      obtain ⟨account, hcall, -⟩ := hx
      have hcall : call = .cancel account id := hcall
      rw [hcall] at hquiet
      exact absurd hquiet (by simp [Quiet])
    | retryNow _ =>
      obtain ⟨account, hcall, -⟩ := hx
      have hcall : call = .retryNow account id := hcall
      rw [hcall] at hquiet
      exact absurd hquiet (by simp [Quiet])
    | confirm hs => exact absurd hs hwaits
    | reconcile _ =>
      obtain ⟨recs, hcall, -⟩ := hx
      have hcall : call = .reconcile recs := hcall
      rw [hcall] at hquiet
      exact absurd hquiet (by simp [Quiet])
    | stamp _ => exact ⟨hwaits, hd⟩

theorem Attempting.open_step (hi : Attempting w) (h : WriteStep w e w')
    (hqueues : ∀ account op now, e ≠ .call (.enqueue account op) now) (hc' : w'.system.store.ops.get? id = some c') (hopen : ¬Settled c') :
    ∃ c, w.system.store.ops.get? id = some c ∧ ¬Settled c ∧ c'.op = c.op := by
  rcases hi.of_step h hc' with ⟨c, hc⟩ | ⟨-, account, op, now, he, -⟩
  · obtain ⟨d, hd, -, hop, -⟩ := hi.kept_step h hc
    have hdc : d = c' := Option.some.inj (hd.symm.trans hc')
    refine ⟨c, hc, ?_, by rw [← hdc, hop]⟩
    intro hset
    obtain ⟨d', hd', hkeeps⟩ := hi.settled_step h hc hset
    have hdc' : d' = c' := Option.some.inj (hd'.symm.trans hc')
    rw [← hdc'] at hopen
    exact hopen (hset.of_keeps hkeeps)
  · exact absurd he (hqueues account op now)

/-- The save is the only one that has not settled; or it has, and it is the last the provider
accepted. -/
def Carried (box : DraftBox τ) (w : Writes) (put : DraftPut τ) (id : PendingOpId) : Prop :=
  (∀ j c, w.system.store.ops.get? j = some c → ¬Settled c → j = id) ∧
    ∃ c, w.system.store.ops.get? id = some c ∧ c.op.payload = box.encode put ∧
      (¬Settled c ∨ (c.state = .succeeded ∧ w.accepted.getLast? = some id))

theorem Based.carried_step (hb : Based box w) (h : WriteStep w e w') (hp : Permitted box w e)
    (hquiet : ∀ call now, e = .call call now → Quiet call)
    (hunspent : ∀ id c, w'.system.store.ops.get? id = some c → c.state = .succeeded ∨ c.attempts < maxAttempts)
    {put : DraftPut τ} (hcar : Carried box w put id) : Carried box w' put id := by
  have hi := hb.attempting
  obtain ⟨honly, c, hc, hpayload, hcase⟩ := hcar
  have hqueues : ∀ account op now, e ≠ .call (.enqueue account op) now := by
    intro account op now he
    exact absurd (hquiet _ _ he) (by simp [Quiet])
  -- whatever is accepted is in flight, so it is the save
  have haccepted : w'.accepted = w.accepted ∨ w'.accepted.getLast? = some id := by
    cases h.cases with
    | @accept lease providerKey hphase =>
      obtain ⟨d, hd, -, hflight⟩ := hp
      right
      show (w.accepted ++ [lease.op]).getLast? = some id
      rw [List.getLast?_append, List.getLast?_singleton, Option.some_or,
        honly lease.op d hd fun hset => hset.state_ne.2.1 hflight]
    | call _ _ => exact .inl rfl
    | refuse _ => exact .inl rfl
    | report _ _ => exact .inl rfl
    | lose => exact .inl rfl
  obtain ⟨c', hc', -, hop, -⟩ := hi.kept_step h hc
  refine ⟨?_, c', hc', by rw [hop, hpayload], ?_⟩
  · intro j d hd hopen
    obtain ⟨d₀, hd₀, hopen₀, -⟩ := hi.open_step h hqueues hd hopen
    exact honly j d₀ hd₀ hopen₀
  · by_cases hset' : Settled c'
    · right
      rcases hcase with hopen | ⟨hsucceeded, hlast⟩
      · -- it settled just now
        rcases hi.system_step h with he | ⟨call, now, hmakes, hstep⟩
        · rw [he, hc, Option.some.injEq] at hc'
          rw [← hc'] at hset'
          exact absurd hset' hopen
        · have hq : Quiet call := by
            cases hmakes with
            | plain _ => exact hquiet _ _ rfl
            | outcome _ _ _ => trivial
          rcases hb.settles hq (hb.retried hmakes) hstep hc hopen hc' hset' with
            hfailed | ⟨hsucceeded, l, key, hcall, hlop, htoken⟩
          · have hspent := (hb.fine_step h hp hc').spent hfailed
            rcases hunspent id c' hc' with hs | hlt
            · rw [hfailed] at hs
              simp at hs
            · omega
          · refine ⟨hsucceeded, ?_⟩
            subst hcall
            cases hmakes with
            | plain hplain => exact absurd hplain (by simp [Call.plain])
            | @outcome lease now phase outcome hmem hphase hout =>
              have hkey : phase = .accepted key := by
                cases phase with
                | calling => exact absurd hout (by simp [AttemptPhase.outcome])
                | accepted key' =>
                  have he := Option.some.inj hout
                  cases he
                  rfl
                | refused cls retryAfter =>
                  have he := Option.some.inj hout
                  simp at he
              subst hkey
              have hlast := hb.last l key hmem c (by rw [hlop]; exact hc) htoken.symm
              rcases haccepted with he | he
              · rw [he, hlast, hlop]
              · exact he
      · have hset : Settled c := .inl hsucceeded
        obtain ⟨d, hd, hkeeps⟩ := hi.settled_step h hc hset
        have hdc : d = c' := Option.some.inj (hd.symm.trans hc')
        refine ⟨by rw [← hdc, hkeeps.1, hsucceeded], ?_⟩
        rcases haccepted with he | he
        · rw [he, hlast]
        · exact he
    · exact .inl hset'

end Step

/-! ## Reading and withdrawing -/

variable {account : AccountId}

theorem mem_listRows {rows : List (PendingOpId × OpCell)}
    {out : List PendingOpRow} (h : Mem.listRows account now rows = .ok out) {id : PendingOpId}
    {c : OpCell} (hmem : (id, c) ∈ rows) (hacc : c.account = account) :
    ∃ view, c.view now = .ok view ∧ (staysListed (some c.op.kind) view.state = true →
      ∃ row ∈ out, row.id = id ∧ row.kind = some c.op.kind ∧
        row.idempotencyKey = c.op.idempotencyKey ∧ row.resourceKey = c.op.resourceKey ∧
        row.state = view.state) := by
  induction rows generalizing out with
  | nil => exact absurd hmem List.not_mem_nil
  | cons r rest ih =>
    obtain ⟨rid, cell⟩ := r
    rw [Mem.listRows] at h
    by_cases hother : cell.account ≠ account
    · rw [if_pos hother] at h
      rcases List.mem_cons.mp hmem with he | hmem
      · cases he
        exact absurd hacc hother
      · exact ih h hmem
    · rw [if_neg hother] at h
      cases hview : cell.view now with
      | error err =>
        rw [hview] at h
        simp at h
      | ok view =>
        rw [hview] at h
        dsimp only at h
        by_cases hlisted : staysListed (some cell.op.kind) view.state = true
        · rw [if_pos hlisted] at h
          obtain ⟨tail, htail, rfl⟩ := map_eq_ok.mp h
          rcases List.mem_cons.mp hmem with he | hmem
          · cases he
            exact ⟨view, hview, fun _ => ⟨_, List.mem_cons_self, rfl, rfl, rfl, rfl, rfl⟩⟩
          · obtain ⟨view', hview', hrow⟩ := ih htail hmem
            refine ⟨view', hview', fun hl => ?_⟩
            obtain ⟨row, hrow, hrest⟩ := hrow hl
            exact ⟨row, List.mem_cons_of_mem _ hrow, hrest⟩
        · rw [if_neg hlisted] at h
          rcases List.mem_cons.mp hmem with he | hmem
          · cases he
            exact ⟨view, hview, fun hl => absurd hl hlisted⟩
          · exact ih h hmem

theorem Fine.view_pending {c : OpCell} {view : Recorded} (hf : Fine box c) (hopen : ¬Settled c)
    (hdead : c.state = .inFlight → c.isDead now = true ∧ c.attempts + 1 < maxAttempts)
    (h : c.view now = .ok view) : view.state = .pending := by
  unfold OpCell.view at h
  by_cases hflight : c.state = .inFlight
  · obtain ⟨hisDead, hleft⟩ := hdead hflight
    have hinterrupted : c.interrupted = .failed .retryable none := interruptedOutcome_of_ne (by rw [hf.kind]; simp) _
    have hmin : min (c.attempts + 1) u32Max < maxAttempts := Nat.lt_of_le_of_lt (Nat.min_le_left _ _) hleft
    have hparks : parks (some c.op.kind) (min (c.attempts + 1) u32Max) .retryable = true := by
      simp only [parks, FailureClass.isRetryable, Bool.true_and, decide_eq_true hmin, Bool.or_true]
    rw [if_pos hisDead, hinterrupted] at h
    unfold OpCell.recorded recordOutcome at h
    dsimp only at h
    rw [if_pos hparks] at h
    split at h
    · cases h
      rfl
    · simp at h
  · have hnot : c.isDead now = false := by simp [OpCell.isDead, hflight]
    rw [hnot, if_neg (by simp)] at h
    cases h
    cases hs : c.state with
    | pending => rfl
    | inFlight => exact absurd hs hflight
    | needsConfirmation => exact absurd hs hf.waits
    | succeeded => exact absurd (.inl hs) hopen
    | cancelled => exact absurd (.inr (.inl hs)) hopen
    | failed => exact absurd (.inr (.inr ⟨hs, by rw [hf.kind]; simp⟩)) hopen

variable {w : Writes}

theorem Based.cancelled (hb : Based box w) {id : PendingOpId}
    (hok : (w.system.store.cancel box.account id now).2.isOk = true)
    (hfree : ((w.system.store.ops.get? id).all fun c =>
      decide (c.state ≠ .inFlight) || c.isDead now) = true) {c' : OpCell}
    (hc' : (w.store (.cancel box.account id) now).system.store.ops.get? id = some c') :
    Settled c' := by
  have hc' : (w.system.store.cancel box.account id now).1.ops.get? id = some c' := hc'
  unfold Mem.cancel Mem.hostVerb at hc' hok
  cases hget : w.system.store.ops.get? id with
  | none =>
    rw [hget] at hc'
    exact absurd (hget.symm.trans hc') (by simp)
  | some c =>
    have hf := hb.fine id c hget
    have hfilter : (some c).filter (fun o => decide (o.account = box.account)) = some c := by
      simp [Option.filter, hf.account]
    rw [hget] at hfree
    have hfree : c.state = .inFlight → c.isDead now = true := by
      intro hs
      simpa [hs] using hfree
    rw [hget, hfilter] at hc' hok
    dsimp only at hc' hok
    cases hrec : c.recoverIfDead now with
    | error err =>
      rw [hrec] at hok
      exact absurd hok (by simp [Except.isOk, Except.toBool])
    | ok d =>
      rw [hrec] at hc'
      have hc' : (Mem.sweep (w.system.store.ops.insert id (Mem.cancelAct d).1) now).get? id = some c' := hc'
      rw [Mem.sweep, Table.get?_mapRows, Table.get?_insert, if_pos rfl, Option.map_some, Option.some.injEq] at hc'
      -- the recovered op
      have hd : Fine box d ∧ d.state ≠ .inFlight := by
        unfold OpCell.recoverIfDead at hrec
        by_cases hdead : c.isDead now = true
        · rw [if_pos hdead] at hrec
          have hs : c.state = .inFlight := by
            simp only [OpCell.isDead, Bool.and_eq_true, decide_eq_true_eq] at hdead
            exact hdead.1
          refine ⟨?_, OpCell.recover_not_inFlight hrec⟩
          have hchange : Changes now c .recover d := .recover hs hrec
          exact @Changes.keeps_fine τ box ⟨.list box.account, now, .done (.ok ())⟩ id c d .recover
            (fun l outcome he => by cases he) trivial hchange hf
        · rw [if_neg hdead] at hrec
          cases hrec
          exact ⟨hf, fun hs => hdead (hfree hs)⟩
      have hact : Settled (Mem.cancelAct d).1 := by
        cases href : Mem.hostRefusal d with
        | none =>
          rw [cancelAct_of_none href]
          exact .inr (.inl rfl)
        | some refusal =>
          have hsame : (Mem.cancelAct d).1 = d := by simp only [Mem.cancelAct, href]
          rw [hsame]
          cases hs : d.state with
          | pending => simp [Mem.hostRefusal, hs] at href
          | inFlight => exact absurd hs hd.2
          | needsConfirmation => exact absurd hs hd.1.waits
          | succeeded => exact .inl hs
          | cancelled => exact .inr (.inl hs)
          | failed => exact .inr (.inr ⟨hs, by rw [hd.1.kind]; simp⟩)
      subst hc'
      split
      · exact hact.of_keeps ⟨rfl, rfl, rfl⟩
      · exact hact

theorem claimOne_id {s s' : Mem} {id : PendingOpId} {req : LeaseRequest} {l : LeasedPendingOp}
    (h : s.claimOne account id req now = (s', .ok (.leased l))) : l.id = id := by
  unfold Mem.claimOne at h
  split at h
  · simp at h
  · split at h
    · simp at h
    · dsimp only at h
      split at h
      · simp at h
      · split at h
        · simp at h
        · cases h
          rfl

/-! ## A save and its phases -/

def PhaseKept (box : DraftBox τ) (s : Saves τ) : Prop :=
  match s.phase with
  | .idle | .reading _ => True
  | .withdrawing put ids => ∀ id c, s.ops.get? id = some c → ¬Settled c →
      c.op.idempotencyKey ≠ box.idempotencyKey put → id ∈ ids
  | .claiming put id => Carried box s.writes put id
  | .storing put lease => Carried box s.writes put lease.op
  | .returned put => ∃ id, Carried box s.writes put id

structure Saving (box : DraftBox τ) (s : Saves τ) : Prop where
  based : Based box s.writes
  phase : PhaseKept box s

theorem saving_start (box : DraftBox τ) : Saving box Saves.start := ⟨based_start box, trivial⟩

theorem Writes.step_call (w : Writes) {call : Call} (now : UtcDateTime) (hplain : call.plain = true)
    (hpresents : call.presents = none) : WriteStep w (.call call now) (w.store call now) := by
  show w.take (.call call now) = _
  simp [Writes.take, hplain, hpresents]

variable {s : Saves τ}

theorem Saves.get?_unspent (h : s.unspent = true) (id : PendingOpId) (c : OpCell)
    (hc : s.writes.system.store.ops.get? id = some c) :
    c.state = .succeeded ∨ c.attempts < maxAttempts := by
  have hrow := List.all_eq_true.mp h (id, c) (s.ops.get?_eq_some_iff.mp hc)
  simpa using hrow

theorem Saving.quiet (hs : Saving box s) {e : WriteEvent} (h : WriteStep s.writes e w) (hp : Permitted box s.writes e)
    (hquiet : ∀ call now, e = .call call now → Quiet call)
    (hunspent : (⟨w, s.phase⟩ : Saves τ).unspent = true) : Saving box ⟨w, s.phase⟩ := by
  have hb := hs.based
  have hcarried : ∀ {put : DraftPut τ} {id : PendingOpId}, Carried box s.writes put id →
      Carried box w put id := fun hcar => hb.carried_step h hp hquiet (Saves.get?_unspent hunspent) hcar
  refine ⟨hb.step h hp, ?_⟩
  have hphase := hs.phase
  unfold PhaseKept at hphase ⊢
  cases hph : s.phase with
  | idle => trivial
  | reading put => trivial
  | withdrawing put ids =>
    rw [hph] at hphase
    intro id c' hc' hopen hkey
    obtain ⟨c, hc, hopen₀, hop⟩ := hb.attempting.open_step h (fun account op now he => by
      exact absurd (hquiet _ _ he) (by simp [Quiet])) hc' hopen
    exact hphase id c hc hopen₀ (by rwa [hop] at hkey)
  | claiming put id =>
    rw [hph] at hphase
    exact hcarried hphase
  | storing put lease =>
    rw [hph] at hphase
    exact hcarried hphase
  | returned put =>
    rw [hph] at hphase
    obtain ⟨id, hcar⟩ := hphase
    exact ⟨id, hcarried hcar⟩

theorem Saves.permitted_of_held {lease : OpLease} (h : s.held lease = true) :
    ∃ c, s.writes.system.store.ops.get? lease.op = some c ∧ c.token = lease.token ∧ c.state = .inFlight := by
  unfold held at h
  simp only [Option.any_eq_true, Bool.and_eq_true, decide_eq_true_eq] at h
  exact h

theorem Saving.queued (hs : Saving box s) {put : DraftPut τ} {id : PendingOpId} (hphase : s.phase = .withdrawing put [])
    (hfree : s.undisturbed box (.queue now) = true)
    (hid : (s.writes.system.store.enqueue box.account (box.saveOp put)).2 = .ok id) :
    Carried box (s.writes.store (.enqueue box.account (box.saveOp put)) now) put id := by
  have hb := hs.based
  have hknown := hs.phase
  unfold PhaseKept at hknown
  unfold Saves.undisturbed at hfree
  rw [hphase] at hknown hfree
  -- no other save is open
  have hopen : ∀ j c, s.writes.system.store.ops.get? j = some c → ¬Settled c →
      c.op.idempotencyKey = box.idempotencyKey put := by
    intro j c hc hopen
    by_contra hne
    exact absurd (hknown j c hc hopen hne) List.not_mem_nil
  have hstore : (s.writes.store (.enqueue box.account (box.saveOp put)) now).system.store =
      (s.writes.system.store.enqueue box.account (box.saveOp put)).1 := rfl
  unfold Carried
  rw [hstore]
  unfold Mem.enqueue at hid ⊢
  cases hlook : s.writes.system.store.idempotency.lookup (box.account, (box.saveOp put).idempotencyKey) with
  | some j =>
    rw [hlook] at hid
    cases hid
    obtain ⟨c, hc, hkey⟩ := (hb.keyed _ id).mp hlook
    have hkey : c.op.idempotencyKey = box.idempotencyKey put := hkey
    have hrow := List.all_eq_true.mp hfree (id, c) (s.ops.get?_eq_some_iff.mp hc)
    simp only [hkey, ne_eq, not_true_eq_false, decide_false, Bool.false_or, Bool.and_eq_true,
      decide_eq_true_eq, Bool.or_eq_true, Bool.not_eq_true'] at hrow
    obtain ⟨hpayload, hcase⟩ := hrow
    refine ⟨?_, c, hc, hpayload, ?_⟩
    · intro j d hd hset
      have hother := (hb.keyed _ j).mpr ⟨d, hd, hopen j d hd hset⟩
      exact Option.some.inj (hother.symm.trans hlook)
    · rcases hcase with hterminal | hdone
      · left
        intro hset
        rw [isTerminal_of_settled hset] at hterminal
        simp at hterminal
      · exact .inr hdone
  | none =>
    rw [hlook] at hid
    cases hid
    dsimp only
    refine ⟨?_, OpCell.queued box.account (box.saveOp put), ?_, rfl, .inl ?_⟩
    · intro j d hd hset
      rw [Table.get?_insert] at hd
      by_contra hne
      rw [if_neg hne] at hd
      have hother := (hb.keyed _ j).mpr ⟨d, hd, hopen j d hd hset⟩
      exact absurd (hlook.symm.trans hother) (by simp)
    · rw [Table.get?_insert, if_pos rfl]
    · intro hset
      exact hset.state_ne.1 rfl

theorem Saving.step {s' : Saves τ} {e : SaveEvent τ} (hs : Saving box s)
    (h : KeepingStep box s e s') : Saving box s' := by
  obtain ⟨hstep, hfree, hunspent⟩ := h
  have hb := hs.based
  unfold SaveStep at hstep
  cases e with
  | save put =>
    dsimp only [Saves.take] at hstep
    split at hstep
    · cases hstep
      exact ⟨hb, trivial⟩
    · cases hstep
      exact ⟨hb, trivial⟩
    · simp at hstep
  | read now =>
    dsimp only [Saves.take] at hstep
    split at hstep
    · rename_i put hphase
      unfold Saves.undisturbed at hfree
      rw [hphase] at hfree
      obtain ⟨hok, hrows⟩ := Bool.and_eq_true_iff.mp hfree
      cases hlist : s.writes.system.store.list box.account now with
      | error err =>
        rw [hlist] at hok
        exact absurd hok (by simp [Except.isOk, Except.toBool])
      | ok rows =>
        rw [hlist] at hstep
        cases hstep
        refine ⟨hb, ?_⟩
        intro id c hc hopen hkey
        have hmem : (id, c) ∈ s.ops.rows := s.ops.get?_eq_some_iff.mp hc
        have hf := hb.fine id c hc
        obtain ⟨view, hview, hrow⟩ := mem_listRows hlist hmem hf.account
        have hdead : c.state = .inFlight → c.isDead now = true ∧ c.attempts + 1 < maxAttempts := by
          intro hflight
          have hrow := List.all_eq_true.mp hrows (id, c) hmem
          simpa [hkey, hflight] using hrow
        have hpending := hf.view_pending hopen hdead hview
        obtain ⟨row, hrow, hid, hkind, hkey', hres, hstate⟩ := hrow (by
          rw [hpending]
          rfl)
        refine List.mem_map.mpr ⟨row, List.mem_filter.mpr ⟨hrow, ?_⟩, hid⟩
        rw [hkind, hf.kind, hres, hf.resource, hstate, hpending, hkey']
        simp [hkey]
    · simp at hstep
  | withdraw now =>
    dsimp only [Saves.take] at hstep
    split at hstep
    · rename_i put id ids hphase
      unfold Saves.undisturbed at hfree
      rw [hphase] at hfree
      obtain ⟨hok, hheld⟩ := Bool.and_eq_true_iff.mp hfree
      have hcall := s.writes.step_call now (rfl : (Call.cancel box.account id).plain = true) rfl
      have hpermit : Permitted box s.writes (.call (.cancel box.account id) now) := fun account op he => by cases he
      cases hverdict : (s.writes.system.store.cancel box.account id now).2 with
      | error err =>
        rw [hverdict] at hok
        exact absurd hok (by simp [Except.isOk, Except.toBool])
      | ok verdict =>
        rw [hverdict] at hstep
        cases hstep
        refine ⟨hb.step hcall hpermit, ?_⟩
        intro j c' hc' hopen hkey
        have hknown := hs.phase
        unfold PhaseKept at hknown
        rw [hphase] at hknown
        obtain ⟨c, hc, hopen₀, hop⟩ := hb.attempting.open_step hcall (fun account op now he => by cases he) hc' hopen
        rcases List.mem_cons.mp (hknown j c hc hopen₀ (by rwa [hop] at hkey)) with rfl | hmem
        · exact absurd (hb.cancelled hok hheld hc') hopen
        · exact hmem
    · simp at hstep
  | queue now =>
    dsimp only [Saves.take] at hstep
    split at hstep
    · rename_i put hphase
      have hcall := s.writes.step_call now (rfl : (Call.enqueue box.account (box.saveOp put)).plain = true) rfl
      have hpermit : Permitted box s.writes (.call (.enqueue box.account (box.saveOp put)) now) := by
        intro account op he
        cases he
        exact ⟨rfl, put, rfl⟩
      cases hid : (s.writes.system.store.enqueue box.account (box.saveOp put)).2 with
      | error err =>
        unfold Mem.enqueue at hid
        split at hid
        · simp at hid
        · simp at hid
      | ok id =>
        rw [hid] at hstep
        cases hstep
        exact ⟨hb.step hcall hpermit, hs.queued hphase hfree hid⟩
    · simp at hstep
  | claim req now giveUp =>
    dsimp only [Saves.take] at hstep
    split at hstep
    · rename_i put id hphase
      have hcall := s.writes.step_call now (rfl : (Call.claimOne box.account id req).plain = true) rfl
      have hpermit : Permitted box s.writes (.call (.claimOne box.account id req) now) := fun account op he => by cases he
      have hcar : Carried box s.writes put id := by
        have hknown := hs.phase
        unfold PhaseKept at hknown
        rwa [hphase] at hknown
      have hnext : ∀ phase, s' = ⟨s.writes.store (.claimOne box.account id req) now, phase⟩ →
          Carried box (s.writes.store (.claimOne box.account id req) now) put id := by
        intro phase he
        refine hb.carried_step hcall hpermit ?_ ?_ hcar
        · intro call now' he'
          cases he'
          trivial
        · intro j c hc
          rw [he] at hunspent
          exact Saves.get?_unspent hunspent j c hc
      split at hstep
      · rename_i leased hleased
        cases hstep
        refine ⟨hb.step hcall hpermit, ?_⟩
        show Carried box _ put leased.lease.op
        have hop : leased.lease.op = id := by
          have hclaim : s.writes.system.store.claimOne box.account id req now =
              ((s.writes.system.store.claimOne box.account id req now).1, .ok (.leased leased)) :=
            Prod.ext rfl hleased
          obtain ⟨r, hgr⟩ := (claimOne_ok hclaim).granted leased (by simp)
          rw [hgr.op]
          exact claimOne_id hclaim
        rw [hop]
        exact hnext _ rfl
      · cases hstep
        refine ⟨hb.step hcall hpermit, ?_⟩
        by_cases hgive : giveUp = true
        · simp only [hgive, if_true] at hnext ⊢
          exact ⟨id, hnext _ rfl⟩
        · simp only [hgive, Bool.false_eq_true, if_false] at hnext ⊢
          exact hnext _ rfl
      · cases hstep
        exact ⟨hb.step hcall hpermit, id, hnext _ rfl⟩
    · simp at hstep
  | stored providerKey =>
    dsimp only [Saves.take] at hstep
    split at hstep
    · rename_i put lease hphase
      obtain ⟨w, hw, rfl⟩ := Option.map_eq_some_iff.mp hstep
      have hheld : s.held lease = true := by simpa [Saves.undisturbed, Saves.ownLease, hphase] using hfree
      rw [← hphase] at hunspent ⊢
      exact hs.quiet hw (Saves.permitted_of_held hheld) (fun call now he => by cases he) hunspent
    · simp at hstep
  | unstored cls retryAfter =>
    dsimp only [Saves.take] at hstep
    split at hstep
    · rename_i put lease hphase
      split at hstep
      · rename_i hretryable
        obtain ⟨w, hw, rfl⟩ := Option.map_eq_some_iff.mp hstep
        rw [← hphase] at hunspent ⊢
        exact hs.quiet hw hretryable (fun call now he => by cases he) hunspent
      · simp at hstep
    · simp at hstep
  | record now =>
    dsimp only [Saves.take] at hstep
    split at hstep
    · rename_i put lease hphase
      obtain ⟨w, hw, rfl⟩ := Option.map_eq_some_iff.mp hstep
      have hknown := hs.phase
      unfold PhaseKept at hknown
      rw [hphase] at hknown
      exact ⟨hb.step hw trivial, lease.op,
        hb.carried_step hw trivial (fun call now he => by cases he) (Saves.get?_unspent hunspent) hknown⟩
    · simp at hstep
  | drain e =>
    dsimp only [Saves.take] at hstep
    split at hstep
    · rename_i hdrains
      obtain ⟨w, hw, rfl⟩ := Option.map_eq_some_iff.mp hstep
      have hquiet : ∀ call now, e = .call call now → Quiet call := by
        intro call now he
        subst he
        cases call <;> trivial
      have hpermit : Permitted box s.writes e := by
        cases e with
        | call call now =>
          intro account op he
          subst he
          exact absurd hdrains (by simp [Saves.drains])
        | accept lease providerKey => exact Saves.permitted_of_held hfree
        | refuse lease cls retryAfter =>
          simp only [Saves.drains, Bool.and_eq_true] at hdrains
          exact hdrains.2
        | report lease now => trivial
        | lose lease => trivial
      exact hs.quiet hw hpermit hquiet hunspent
    · simp at hstep

theorem saved_draft_kept {es : List (SaveEvent τ)} {s : Saves τ} {put : DraftPut τ}
    (h : Run (KeepingStep box) Saves.start es s) (hreturned : s.phase = .returned put) :
    s.Keeps box put.text := by
  have hs : Saving box s := h.preserves (fun _ _ _ hs hstep => hs.step hstep) (saving_start box)
  have hphase := hs.phase
  unfold PhaseKept at hphase
  rw [hreturned] at hphase
  obtain ⟨id, -, c, hc, hpayload, hcase⟩ := hphase
  have hf := hs.based.fine id c hc
  refine ⟨id, c, put, hc, hf.kind, hpayload, rfl, ?_⟩
  rcases hcase with hopen | ⟨-, hlast⟩
  · right
    by_contra hterminal
    exact hopen (hf.settled (by simpa using hterminal))
  · exact .inl hlast

namespace Sample

/-- A draft whose payload is its text, named by the payload itself. -/
def draftBox : DraftBox String := ⟨"a", "<d@example>", fun put => put.text ++ put.replacing.getD "", id⟩

/-- A save with no network: the attempt fails and the op waits. -/
def offline (text : String) (withdraws : List (SaveEvent String)) :
    List (SaveEvent String) :=
  [.save ⟨text, none⟩, .read noon] ++ withdraws ++
    [.queue noon, .claim request noon true, .unstored .retryable none, .record noon]

/-- One text, another, and the first again. -/
def backAgain : List (SaveEvent String) :=
  offline "one" [] ++ offline "two" [.withdraw noon] ++
    [.save ⟨"one", none⟩, .read noon, .withdraw noon, .queue noon, .claim request noon true]

def forward : List (SaveEvent String) :=
  offline "one" [] ++
    [.save ⟨"two", none⟩, .read noon, .withdraw noon, .queue noon, .claim request noon true,
      .stored "k", .record noon]

end Sample

open Sample in
/-- Going back to a text saved before loses it. -/
theorem backAgain_lost : ¬∀ (es : List (SaveEvent String)) (s : Saves String) (put : DraftPut String),
      Run (SaveStep draftBox) Saves.start es s → s.unspent = true → s.phase = .returned put →
        s.Keeps draftBox put.text := by
  intro h
  obtain ⟨s, hs⟩ : ∃ s, backAgain.foldlM (Saves.take draftBox) Saves.start = some s :=
    Option.isSome_iff_exists.mp (by decide)
  have hend : (backAgain.foldlM (Saves.take draftBox) Saves.start).any (fun s =>
      decide (s.phase = .returned ⟨"one", none⟩) && s.unspent && decide (s.writes.accepted = []) &&
        s.ops.rows.all fun r => r.2.state.isTerminal) = true := by decide
  rw [hs] at hend
  simp only [Option.any_some, Bool.and_eq_true, decide_eq_true_eq, List.all_eq_true] at hend
  obtain ⟨⟨⟨hphase, hunspent⟩, hnone⟩, hterminal⟩ := hend
  obtain ⟨id, c, put, hc, -, -, -, hlast | hopen⟩ := h _ s _ (Run.of_foldlM hs) hunspent hphase
  · rw [hnone] at hlast
    simp at hlast
  · have := hterminal (id, c) (s.ops.get?_eq_some_iff.mp hc)
    rw [hopen] at this
    simp at this

open Sample in
theorem saved_draft_kept_forward : ∃ s : Saves String, Run (KeepingStep draftBox) Saves.start forward s ∧
      s.phase = .returned ⟨"two", none⟩ ∧ s.Keeps draftBox "two" := by
  let step (s : Saves String) (e : SaveEvent String) : Option (Saves String) :=
    (s.take draftBox e).filter fun s' => s.undisturbed draftBox e && s'.unspent
  obtain ⟨s, hs⟩ : ∃ s, forward.foldlM step Saves.start = some s := Option.isSome_iff_exists.mp (by decide)
  have hrun : Run (KeepingStep draftBox) Saves.start forward s := by
    refine Run.mono ?_ (Run.of_foldlM hs)
    intro s e _ s' hstep
    obtain ⟨htake, hmeets⟩ := Option.filter_eq_some_iff.mp hstep
    exact ⟨htake, Bool.and_eq_true_iff.mp hmeets⟩
  have hend : (forward.foldlM step Saves.start).any (fun s =>
      decide (s.phase = .returned ⟨"two", none⟩)) = true := by decide
  rw [hs] at hend
  have hphase := of_decide_eq_true hend
  exact ⟨s, hrun, hphase, saved_draft_kept hrun hphase⟩

end Outbox
end SyncEngine
