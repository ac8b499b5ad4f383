import SyncEngine.Outbox.Lease

/-!
# Attempts and what the provider accepts

A worker that holds a lease calls the provider, and reports what came of it under that lease.  The provider's answer is
a step of its own, so that a lease can lapse, the op be recovered and another worker take it while the first is still
calling.  `accepted` is what the provider did, in order.

Outcomes are reported by `report` alone, once for each attempt, and a page's proof of delivery is about sends, so
neither `mark` nor `reconcile` is a call of its own here.
-/

namespace SyncEngine
namespace Outbox

inductive AttemptPhase
  | calling
  | accepted (providerKey : ProviderKey)
  | refused (cls : FailureClass) (retryAfter : Option Duration)
deriving DecidableEq

/-- What is reported of an attempt, once the provider has answered. -/
def AttemptPhase.outcome : AttemptPhase → Option PendingOutcome
  | .calling => none
  | .accepted providerKey => some (.succeeded providerKey)
  | .refused cls retryAfter => some (.failed cls retryAfter)

structure Writes where
  system : MemSystem
  /-- Attempts not reported yet. -/
  attempts : List (OpLease × AttemptPhase)
  accepted : List PendingOpId

inductive WriteEvent
  | call (call : Call) (now : UtcDateTime)
  | accept (lease : OpLease) (providerKey : ProviderKey)
  | refuse (lease : OpLease) (cls : FailureClass) (retryAfter : Option Duration)
  | report (lease : OpLease) (now : UtcDateTime)
  /-- The worker is gone. -/
  | lose (lease : OpLease)

def Call.plain : Call → Bool
  | .mark _ _ | .reconcile _ => false
  | _ => true

namespace Writes

def start : Writes := ⟨MemSystem.start, [], []⟩

def phaseOf (s : Writes) (lease : OpLease) : Option AttemptPhase :=
  (s.attempts.find? fun a => a.1 = lease).map Prod.snd

def without (s : Writes) (lease : OpLease) : List (OpLease × AttemptPhase) :=
  s.attempts.filter fun a => a.1 ≠ lease

def store (s : Writes) (call : Call) (now : UtcDateTime) : Writes :=
  let out := Mem.run s.system.store call now
  { s with
    system := ⟨out.1, s.system.issued ++ out.2.leases⟩
    attempts := s.attempts ++ out.2.leases.map fun lease => (lease, .calling) }

def take (s : Writes) : WriteEvent → Option Writes
  | .call call now =>
    if call.plain && call.presents.all fun lease => decide (lease ∈ s.system.issued) then
      some (s.store call now)
    else none
  | .accept lease providerKey =>
    if s.phaseOf lease = some .calling then
      some
        { s with
          attempts := (lease, .accepted providerKey) :: s.without lease
          accepted := s.accepted ++ [lease.op] }
    else none
  | .refuse lease cls retryAfter =>
    if s.phaseOf lease = some .calling then
      some { s with attempts := (lease, .refused cls retryAfter) :: s.without lease }
    else none
  | .report lease now =>
    match (s.phaseOf lease).bind AttemptPhase.outcome with
    | some outcome => some { s.store (.mark lease outcome) now with attempts := s.without lease }
    | none => none
  | .lose lease => some { s with attempts := s.without lease }

end Writes

def WriteStep (s : Writes) (e : WriteEvent) (s' : Writes) : Prop := s.take e = some s'

/-! ## What a step does -/

def Writes.entry (s : Writes) (call : Call) (now : UtcDateTime) : Entry :=
  ⟨call, now, (Mem.run s.system.store call now).2⟩

section Steps

variable {s s' : Writes} {e : WriteEvent}

theorem Writes.memStep_store (s : Writes) {call : Call} (now : UtcDateTime)
    (h : ∀ lease, call.presents = some lease → lease ∈ s.system.issued) :
    MemStep s.system (s.entry call now) (s.store call now).system :=
  ⟨h, rfl, rfl⟩

/-- Where an attempt came from: it was there before, or the step's call granted it. -/
inductive TakeCases (s : Writes) : WriteEvent → Writes → Prop
  | call {call : Call} {now : UtcDateTime} : call.plain = true →
      (∀ lease, call.presents = some lease → lease ∈ s.system.issued) →
      TakeCases s (.call call now) (s.store call now)
  | accept {lease : OpLease} {providerKey : ProviderKey} : s.phaseOf lease = some .calling →
      TakeCases s (.accept lease providerKey)
        { s with
          attempts := (lease, .accepted providerKey) :: s.without lease
          accepted := s.accepted ++ [lease.op] }
  | refuse {lease : OpLease} {cls : FailureClass} {retryAfter : Option Duration} :
      s.phaseOf lease = some .calling →
      TakeCases s (.refuse lease cls retryAfter)
        { s with attempts := (lease, .refused cls retryAfter) :: s.without lease }
  | report {lease : OpLease} {now : UtcDateTime} {phase : AttemptPhase} {outcome : PendingOutcome} :
      s.phaseOf lease = some phase → phase.outcome = some outcome →
      TakeCases s (.report lease now)
        { s.store (.mark lease outcome) now with attempts := s.without lease }
  | lose {lease : OpLease} : TakeCases s (.lose lease) { s with attempts := s.without lease }

theorem WriteStep.cases (h : WriteStep s e s') : TakeCases s e s' := by
  unfold WriteStep at h
  cases e with
  | call call now =>
    dsimp only [Writes.take] at h
    split at h
    · rename_i hcond
      simp only [Bool.and_eq_true, Option.all_eq_true, decide_eq_true_eq] at hcond
      cases h
      exact .call hcond.1 hcond.2
    · simp at h
  | accept lease providerKey =>
    dsimp only [Writes.take] at h
    split at h
    · cases h
      exact .accept ‹_›
    · simp at h
  | refuse lease cls retryAfter =>
    dsimp only [Writes.take] at h
    split at h
    · cases h
      exact .refuse ‹_›
    · simp at h
  | report lease now =>
    dsimp only [Writes.take] at h
    cases hout : (s.phaseOf lease).bind AttemptPhase.outcome with
    | none =>
      rw [hout] at h
      simp at h
    | some outcome =>
      rw [hout] at h
      cases h
      obtain ⟨phase, hphase, houtcome⟩ := Option.bind_eq_some_iff.mp hout
      exact .report hphase houtcome
  | lose lease =>
    cases h
    exact .lose

theorem Writes.mem_of_phaseOf {lease : OpLease} {phase : AttemptPhase}
    (h : s.phaseOf lease = some phase) : (lease, phase) ∈ s.attempts := by
  obtain ⟨a, hfind, rfl⟩ := Option.map_eq_some_iff.mp h
  have hlease := List.find?_some hfind
  rw [← of_decide_eq_true hlease]
  exact List.mem_of_find?_eq_some hfind

theorem Writes.mem_without {lease : OpLease} {a : OpLease × AttemptPhase} :
    a ∈ s.without lease ↔ a ∈ s.attempts ∧ a.1 ≠ lease := by
  unfold without
  rw [List.mem_filter, decide_eq_true_eq]

end Steps

/-! ## The invariant of attempts -/

/-- An attempt is under an issued lease, and while its token is the op's the op is in flight. -/
structure Attempting (s : Writes) : Prop where
  fenced : Fenced s.system
  exclusive : Exclusive holds s.system.store.ops
  issued : ∀ a ∈ s.attempts, a.1 ∈ s.system.issued
  current : ∀ a ∈ s.attempts, ∀ c, s.system.store.ops.get? a.1.op = some c → c.token = a.1.token →
    c.state = .inFlight

theorem attempting_start : Attempting Writes.start :=
  ⟨fenced_start, by intro i j a b k h; exact absurd h (by simp [Writes.start, MemSystem.start, Mem.new]),
    by simp [Writes.start], by simp [Writes.start]⟩

theorem Changes.keeps_current {e : Entry} {id : PendingOpId} {c c' : OpCell} {x : Change} {t : Nat}
    (hmark : ∀ l outcome, e.call = .mark l outcome → l.op = id → l.token ≠ t)
    (hreconcile : ∀ recs, e.call ≠ .reconcile recs) (hx : Allows e id x)
    (h : Changes e.now c x c') (hc : t ≤ c.token ∧ (c.token = t → c.state = .inFlight)) :
    t ≤ c'.token ∧ (c'.token = t → c'.state = .inFlight) := by
  obtain ⟨hle, hcurrent⟩ := hc
  have hframe := h.frame.2.2
  refine ⟨Nat.le_trans hle hframe, ?_⟩
  intro ht
  have htoken : c.token = t := by omega
  have hstate := hcurrent htoken
  cases h with
  | recover _ hr =>
    have := (OpCell.recover_frame hr).2.2
    omega
  | @mark _ l outcome hadm _ =>
    simp only [Mem.admits, Bool.or_eq_true, Bool.and_eq_true, decide_eq_true_eq, hstate,
      reduceCtorEq, false_and, or_false] at hadm
    exact absurd (hadm.trans htoken) (hmark l outcome hx.1 hx.2.1)
  | handOver _ hs => exact hs
  | renew hs => exact hs
  | cancel hn =>
    rcases hostRefusal_eq_none hn with hs | ⟨hs, -⟩
    · rw [hstate] at hs
      simp at hs
    · rw [hstate] at hs
      simp at hs
  | retryNow hn =>
    rcases hostRefusal_eq_none hn with hs | ⟨hs, -⟩
    · rw [hstate] at hs
      simp at hs
    · rw [hstate] at hs
      simp at hs
  | confirm hs =>
    rw [hstate] at hs
    simp at hs
  | reconcile _ =>
    obtain ⟨recs, hcall, -⟩ := hx
    exact absurd hcall (hreconcile recs)
  | stamp _ => exact hstate

/-- An op in flight under a token is so after a call that reports no outcome under it. -/
theorem MemStep.keeps_current {s s' : MemSystem} {e : Entry} (h : MemStep s e s') (hf : Fenced s)
    {l : OpLease} (hl : l ∈ s.issued)
    (hmark : ∀ l' outcome, e.call = .mark l' outcome → l'.op = l.op → l'.token ≠ l.token)
    (hreconcile : ∀ recs, e.call ≠ .reconcile recs)
    (hcurrent : ∀ c, s.store.ops.get? l.op = some c → c.token = l.token → c.state = .inFlight)
    {c' : OpCell} (hc' : s'.store.ops.get? l.op = some c') (ht : c'.token = l.token) :
    c'.state = .inFlight := by
  obtain ⟨c, hc, -, htoken⟩ := hf.known l hl
  rcases run_cases h.answered with ⟨account, op, -, -, hops, -⟩ | ha
  · have hne : l.op ≠ s.store.nextOp := Nat.ne_of_lt (hf.fresh l.op c hc)
    rw [hops, Table.get?_insert, if_neg hne] at hc'
    exact hcurrent c' hc' ht
  · obtain ⟨m, hpath, hcase⟩ := ha.cell hc
    have hm : l.token ≤ m.token ∧ (m.token = l.token → m.state = .inFlight) :=
      @Path.preserves _ _ _ _ (fun d => l.token ≤ d.token ∧ (d.token = l.token → d.state = .inFlight))
        (fun _ _ _ hk hx hch => hch.keeps_current hmark hreconcile hx hk) hpath
        ⟨htoken, hcurrent c hc⟩
    rcases hcase with ⟨hget, -⟩ | ⟨g, -, -, -, hget⟩
    · rw [hget, Option.some.injEq] at hc'
      subst hc'
      exact hm.2 ht
    · rw [hget, Option.some.injEq] at hc'
      subst hc'
      rfl

theorem MemStep.granted_current {s s' : MemSystem} {e : Entry} (h : MemStep s e s') {l : OpLease}
    (hl : l ∈ e.reply.leases) {c' : OpCell} (hc' : s'.store.ops.get? l.op = some c') :
    c'.state = .inFlight := by
  rcases run_cases h.answered with ⟨account, op, -, hreply, -⟩ | ha
  · rw [hreply] at hl
    exact absurd hl (by simp [Reply.leases, Reply.granted])
  · obtain ⟨g, hg, rfl⟩ := List.mem_map.mp hl
    obtain ⟨mid, -, hclaim⟩ := ha.ops
    obtain ⟨r, hgr⟩ := hclaim.granted g hg
    rw [hgr.op, hgr.after, Option.some.injEq] at hc'
    subst hc'
    rfl

/-- An attempt under way goes on to another phase. -/
theorem Attempting.goesOn {s : Writes} (hi : Attempting s) {lease : OpLease} {phase : AttemptPhase}
    (hp : s.phaseOf lease = some phase) (phase' : AttemptPhase) (accepted : List PendingOpId) :
    Attempting { s with attempts := (lease, phase') :: s.without lease, accepted } := by
  have hmem := Writes.mem_of_phaseOf hp
  refine ⟨hi.fenced, hi.exclusive, ?_, ?_⟩
  · intro a ha
    rcases List.mem_cons.mp ha with rfl | ha
    · exact hi.issued (lease, phase) hmem
    · exact hi.issued a (Writes.mem_without.mp ha).1
  · intro a ha
    rcases List.mem_cons.mp ha with rfl | ha
    · exact hi.current (lease, phase) hmem
    · exact hi.current a (Writes.mem_without.mp ha).1

theorem Attempting.step {s s' : Writes} {e : WriteEvent} (hi : Attempting s) (h : WriteStep s e s') : Attempting s' := by
  have hphase : ∀ {lease : OpLease} {phase : AttemptPhase}, s.phaseOf lease = some phase →
      (lease, phase) ∈ s.attempts := fun hp => Writes.mem_of_phaseOf hp
  cases h.cases with
  | @call call now hplain hpresents =>
    have hstep := s.memStep_store now hpresents
    have hmark : ∀ l outcome, call ≠ .mark l outcome := by
      intro l outcome he
      rw [he] at hplain
      exact absurd hplain (by simp [Call.plain])
    have hreconcile : ∀ recs, call ≠ .reconcile recs := by
      intro recs he
      rw [he] at hplain
      exact absurd hplain (by simp [Call.plain])
    refine ⟨hi.fenced.step hstep, mem_exclusive_step hi.exclusive hstep, ?_, ?_⟩
    · intro a ha
      rcases List.mem_append.mp ha with ha | ha
      · exact hstep.subset_issued (hi.issued a ha)
      · obtain ⟨l, hl, rfl⟩ := List.mem_map.mp ha
        rw [hstep.issued]
        exact List.mem_append_right _ hl
    · intro a ha c hc ht
      rcases List.mem_append.mp ha with ha | ha
      · exact hstep.keeps_current hi.fenced (hi.issued a ha)
          (fun l outcome he => absurd he (hmark l outcome)) hreconcile (hi.current a ha) hc ht
      · obtain ⟨l, hl, rfl⟩ := List.mem_map.mp ha
        exact hstep.granted_current hl hc
  | @accept lease providerKey hp => exact hi.goesOn hp _ _
  | @refuse lease cls retryAfter hp => exact hi.goesOn hp _ s.accepted
  | @report lease now phase outcome hp hout =>
    have hissued := hi.issued _ (hphase hp)
    have hstep := @Writes.memStep_store s (.mark lease outcome) now (by
      intro l hl
      rw [← Option.some.inj hl]
      exact hissued)
    refine ⟨hi.fenced.step hstep, mem_exclusive_step hi.exclusive hstep, ?_, ?_⟩
    · intro a ha
      exact hstep.subset_issued (hi.issued a (Writes.mem_without.mp ha).1)
    · intro a ha c hc ht
      obtain ⟨ha, hne⟩ := Writes.mem_without.mp ha
      refine hstep.keeps_current hi.fenced (hi.issued a ha) ?_ (fun recs he => by cases he) (hi.current a ha) hc ht
      -- two leases of an op have two tokens
      intro l outcome' he hop htoken
      cases he
      exact hne (hi.fenced.unique _ hissued _ (hi.issued a ha) hop htoken).symm
  | lose =>
    exact ⟨hi.fenced, hi.exclusive, fun a ha => hi.issued a (Writes.mem_without.mp ha).1,
      fun a ha => hi.current a (Writes.mem_without.mp ha).1⟩

/-- No step but a `report` is a call on an op that has settled under the token it presents, and a
report never is. -/
theorem Attempting.not_late {s : Writes} (hi : Attempting s) {call : Call} {now : UtcDateTime}
    (h : call.plain = true ∨ ∃ lease phase outcome, s.phaseOf lease = some phase ∧
      call = .mark lease outcome) : ¬Late s.system (s.entry call now) := by
  rintro (⟨l, outcome, c, hcall, hc, hsettled, ht⟩ | ⟨recs, r, c, hcall, -⟩)
  · rcases h with hplain | ⟨lease, phase, outcome', hp, rfl⟩
    · have hcall : call = .mark l outcome := hcall
      rw [hcall] at hplain
      exact absurd hplain (by simp [Call.plain])
    · cases hcall
      have hflight := hi.current _ (Writes.mem_of_phaseOf hp) c hc ht.symm
      exact hsettled.state_ne.2.1 hflight
  · have hcall : call = .reconcile recs := hcall
    rcases h with hplain | ⟨lease, phase, outcome', hp, he⟩
    · rw [hcall] at hplain
      exact absurd hplain (by simp [Call.plain])
    · rw [he] at hcall
      simp at hcall

/-- The store call a step makes. -/
inductive Makes (s : Writes) : WriteEvent → Call → UtcDateTime → Prop
  | plain {call : Call} {now : UtcDateTime} : call.plain = true → Makes s (.call call now) call now
  | outcome {lease : OpLease} {now : UtcDateTime} {phase : AttemptPhase} {outcome : PendingOutcome} :
      (lease, phase) ∈ s.attempts → s.phaseOf lease = some phase → phase.outcome = some outcome →
      Makes s (.report lease now) (.mark lease outcome) now

theorem Attempting.system_step {s s' : Writes} {e : WriteEvent} (hi : Attempting s) (h : WriteStep s e s') :
    s'.system = s.system ∨ ∃ call now, Makes s e call now ∧ MemStep s.system (s.entry call now) s'.system := by
  cases h.cases with
  | call hplain hpresents => exact .inr ⟨_, _, .plain hplain, s.memStep_store _ hpresents⟩
  | @report lease now phase outcome hp hout =>
    have hmem := Writes.mem_of_phaseOf hp
    refine .inr ⟨_, _, .outcome hmem hp hout, @Writes.memStep_store s _ now ?_⟩
    intro l hl
    rw [← Option.some.inj hl]
    exact hi.issued _ hmem
  | accept _ => exact .inl rfl
  | refuse _ => exact .inl rfl
  | lose => exact .inl rfl

section Cells

variable {s s' : Writes} {e : WriteEvent} {id : PendingOpId} {c c' : OpCell}

theorem Attempting.settled_step (hi : Attempting s) (h : WriteStep s e s')
    (hc : s.system.store.ops.get? id = some c) (hset : Settled c) :
    ∃ c', s'.system.store.ops.get? id = some c' ∧ Settled.Keeps c c' := by
  rcases hi.system_step h with he | ⟨call, now, hmakes, hstep⟩
  · exact ⟨c, he ▸ hc, rfl, rfl, rfl⟩
  · have hlate : ¬Late s.system (s.entry call now) := by
      cases hmakes with
      | plain hplain => exact hi.not_late (.inl hplain)
      | outcome _ hp _ => exact hi.not_late (.inr ⟨_, _, _, hp, rfl⟩)
    exact (hstep.keeps_cell hi.fenced (fun _ _ _ hkd hx hch => hset.keeps hc hlate hkd hx hch)
      (fun _ hkd => (hset.of_keeps hkd).state_ne.1) hc ⟨rfl, rfl, rfl⟩).1

theorem Attempting.kept_step (hi : Attempting s) (h : WriteStep s e s') (hc : s.system.store.ops.get? id = some c) :
    ∃ c', s'.system.store.ops.get? id = some c' ∧ c'.account = c.account ∧ c'.op = c.op ∧ c.token ≤ c'.token := by
  rcases hi.system_step h with he | ⟨call, now, -, hstep⟩
  · exact ⟨c, he ▸ hc, rfl, rfl, Nat.le_refl _⟩
  · rcases run_cases hstep.answered with ⟨account, op, -, -, hops, -⟩ | ha
    · have hne : id ≠ s.system.store.nextOp := Nat.ne_of_lt (hi.fenced.fresh id c hc)
      refine ⟨c, ?_, rfl, rfl, Nat.le_refl _⟩
      rw [hops, Table.get?_insert, if_neg hne]
      exact hc
    · exact ha.frame hc

theorem Attempting.of_step (hi : Attempting s) (h : WriteStep s e s') (hc' : s'.system.store.ops.get? id = some c') :
    (∃ c, s.system.store.ops.get? id = some c) ∨
      (id = s.system.store.nextOp ∧ ∃ account op now, e = .call (.enqueue account op) now ∧
        c' = OpCell.queued account op) := by
  rcases hi.system_step h with he | ⟨call, now, hmakes, hstep⟩
  · exact .inl ⟨c', he ▸ hc'⟩
  · rcases run_cases hstep.answered with ⟨account, op, hcall, -, hops, -⟩ | ha
    · have hcall : call = .enqueue account op := hcall
      by_cases hnew : id = s.system.store.nextOp
      · rw [hops, Table.get?_insert, if_pos hnew, Option.some.injEq] at hc'
        cases hmakes with
        | plain _ => exact .inr ⟨hnew, account, op, now, by rw [hcall], hc'.symm⟩
        | outcome _ _ _ => simp at hcall
      · rw [hops, Table.get?_insert, if_neg hnew] at hc'
        exact .inl ⟨c', hc'⟩
    · exact .inl (ha.of_cell hc')

end Cells

/-!
## Saving a draft

A save withdraws the saves of its draft that wait, queues an op named by a digest of what it stores, claims that op and
calls the provider.  Saves of one draft come one after another, and drains run beside them at any instant.

An op is found again by its name for good, so a save of a text that was queued before and then withdrawn or overtaken
meets an op that no longer runs, and is lost.  Where that does not happen, no other save is in a worker's hands, and the
provider answers while a lease holds, a save is the last the provider took, or it is still queued.
-/

/-- What a save stores. -/
structure DraftPut (τ : Type) where
  text : τ
  /-- The stored copy it supersedes. -/
  replacing : Option ProviderKey
deriving DecidableEq

/-- One draft of an account, and how its payloads are written and named. -/
structure DraftBox (τ : Type) where
  account : AccountId
  messageId : String
  encode : DraftPut τ → String
  digest : String → String

variable {τ : Type}

namespace DraftBox

def resourceKey (box : DraftBox τ) : ResourceKey := "draft:" ++ box.messageId

def idempotencyKey (box : DraftBox τ) (put : DraftPut τ) : IdempotencyKey :=
  "put-draft:" ++ box.messageId ++ ":" ++ box.digest (box.encode put)

def saveOp (box : DraftBox τ) (put : DraftPut τ) : PendingOp where
  idempotencyKey := box.idempotencyKey put
  kind := .mailDraftPut
  resourceKey := box.resourceKey
  payload := box.encode put

/-- The queued saves another one replaces: those that wait, but not the one it would use itself. -/
def superseded (box : DraftBox τ) (put : DraftPut τ) (rows : List PendingOpRow) :
    List PendingOpId :=
  (rows.filter fun row => decide (row.kind = some .mailDraftPut) &&
    decide (row.resourceKey = box.resourceKey) && decide (row.state = .pending) &&
    decide (row.idempotencyKey ≠ box.idempotencyKey put)).map PendingOpRow.id

end DraftBox

inductive SavePhase (τ : Type)
  | idle
  | reading (put : DraftPut τ)
  | withdrawing (put : DraftPut τ) (ids : List PendingOpId)
  | claiming (put : DraftPut τ) (op : PendingOpId)
  | storing (put : DraftPut τ) (lease : OpLease)
  | returned (put : DraftPut τ)
deriving DecidableEq

structure Saves (τ : Type) where
  writes : Writes
  phase : SavePhase τ

inductive SaveEvent (τ : Type)
  | save (put : DraftPut τ)
  | read (now : UtcDateTime)
  | withdraw (now : UtcDateTime)
  | queue (now : UtcDateTime)
  /-- `giveUp` is whether the wait for a busy resource is over. -/
  | claim (req : LeaseRequest) (now : UtcDateTime) (giveUp : Bool)
  | stored (providerKey : ProviderKey)
  | unstored (cls : FailureClass) (retryAfter : Option Duration)
  | record (now : UtcDateTime)
  | drain (e : WriteEvent)

namespace Saves

def start : Saves τ := ⟨Writes.start, .idle⟩

def ops (s : Saves τ) : Ops := s.writes.system.store.ops

def ownLease (s : Saves τ) : Option OpLease :=
  match s.phase with
  | .storing _ lease => some lease
  | _ => none

/-- What a drain may do: read the queue, claim an op by its id, renew a lease, and see its own
attempts through, each answered by an acceptance or a failure that can be retried. -/
def drains (box : DraftBox τ) (s : Saves τ) : WriteEvent → Bool
  | .call (.list account) _ => account = box.account
  | .call (.claimOne account _ _) _ => account = box.account
  | .call (.renew _ _) _ => true
  | .call _ _ => false
  | .accept lease _ => s.ownLease ≠ some lease
  | .refuse lease cls _ => s.ownLease ≠ some lease && cls.isRetryable
  | .report lease _ => s.ownLease ≠ some lease
  | .lose lease => s.ownLease ≠ some lease

def take (box : DraftBox τ) (s : Saves τ) : SaveEvent τ → Option (Saves τ)
  | .save put =>
    match s.phase with
    | .idle | .returned _ => some { s with phase := .reading put }
    | _ => none
  | .read now =>
    match s.phase with
    | .reading put =>
      match s.writes.system.store.list box.account now with
      | .ok rows => some { s with phase := .withdrawing put (box.superseded put rows) }
      | .error _ => some { s with phase := .returned put }
    | _ => none
  | .withdraw now =>
    match s.phase with
    | .withdrawing put (id :: ids) =>
      -- a refusal is not a failure: the op settled or was claimed since it was read
      match (s.writes.system.store.cancel box.account id now).2 with
      | .ok _ => some ⟨s.writes.store (.cancel box.account id) now, .withdrawing put ids⟩
      | .error _ => some ⟨s.writes.store (.cancel box.account id) now, .returned put⟩
    | _ => none
  | .queue now =>
    match s.phase with
    | .withdrawing put [] =>
      match (s.writes.system.store.enqueue box.account (box.saveOp put)).2 with
      | .ok id =>
        some ⟨s.writes.store (.enqueue box.account (box.saveOp put)) now, .claiming put id⟩
      | .error _ =>
        some ⟨s.writes.store (.enqueue box.account (box.saveOp put)) now, .returned put⟩
    | _ => none
  | .claim req now giveUp =>
    match s.phase with
    | .claiming put id =>
      let writes := s.writes.store (.claimOne box.account id req) now
      match (s.writes.system.store.claimOne box.account id req now).2 with
      | .ok (.leased leased) => some ⟨writes, .storing put leased.lease⟩
      | .ok (.refused .busy) =>
        some ⟨writes, if giveUp then .returned put else .claiming put id⟩
      | _ => some ⟨writes, .returned put⟩
    | _ => none
  | .stored providerKey =>
    match s.phase with
    | .storing put lease =>
      (s.writes.take (.accept lease providerKey)).map fun writes => ⟨writes, .storing put lease⟩
    | _ => none
  | .unstored cls retryAfter =>
    match s.phase with
    | .storing put lease =>
      if cls.isRetryable then
        (s.writes.take (.refuse lease cls retryAfter)).map fun writes =>
          ⟨writes, .storing put lease⟩
      else none
    | _ => none
  | .record now =>
    match s.phase with
    | .storing put lease =>
      (s.writes.take (.report lease now)).map fun writes => ⟨writes, .returned put⟩
    | _ => none
  | .drain e =>
    if s.drains box e then (s.writes.take e).map fun writes => { s with writes } else none

/-- The text is that of the last put the provider accepted, or an unsettled op carries it. -/
def Keeps (box : DraftBox τ) (s : Saves τ) (text : τ) : Prop :=
  ∃ id c put, s.ops.get? id = some c ∧ c.op.kind = .mailDraftPut ∧ c.op.payload = box.encode put ∧
    put.text = text ∧
    (s.writes.accepted.getLast? = some id ∨ c.state.isTerminal = false)

end Saves

def SaveStep (box : DraftBox τ) (s : Saves τ) (e : SaveEvent τ) (s' : Saves τ) : Prop :=
  s.take box e = some s'

/-! ## The condition -/

namespace Saves

def held (s : Saves τ) (lease : OpLease) : Bool :=
  (s.ops.get? lease.op).any fun c => decide (c.token = lease.token) && decide (c.state = .inFlight)

/-- What is asked of the state before a step.

While a save is read and withdrawn for another, no worker holds one, and an attempt whose worker is
gone has another left; the store reads and withdraws without an error.  When a save is queued, an op
already under its name carries the same payload, and has not settled unless it is the last the
provider accepted.  The provider accepts a put while the lease of its attempt holds the op. -/
def undisturbed (box : DraftBox τ) (s : Saves τ) : SaveEvent τ → Bool
  | .read now =>
    match s.phase with
    | .reading put =>
      (s.writes.system.store.list box.account now).isOk && s.ops.rows.all fun r =>
        decide (r.2.op.idempotencyKey = box.idempotencyKey put) ||
          decide (r.2.state ≠ .inFlight) ||
          (r.2.isDead now && decide (r.2.attempts + 1 < maxAttempts))
    | _ => true
  | .withdraw now =>
    match s.phase with
    | .withdrawing _ (id :: _) =>
      (s.writes.system.store.cancel box.account id now).2.isOk &&
        (s.ops.get? id).all fun c => decide (c.state ≠ .inFlight) || c.isDead now
    | _ => true
  | .queue _ =>
    match s.phase with
    | .withdrawing put [] =>
      s.ops.rows.all fun r => decide (r.2.op.idempotencyKey ≠ box.idempotencyKey put) ||
        (decide (r.2.op.payload = box.encode put) &&
          (!r.2.state.isTerminal ||
            (decide (r.2.state = .succeeded) &&
              decide (s.writes.accepted.getLast? = some r.1))))
    | _ => true
  | .stored _ => s.ownLease.all s.held
  | .drain (.accept lease _) => s.held lease
  | _ => true

def unspent (s : Saves τ) : Bool :=
  s.ops.rows.all fun r => decide (r.2.state = .succeeded) || decide (r.2.attempts < maxAttempts)

end Saves

/-- A step that meets the condition, after which no op has failed as often as it may. -/
def KeepingStep (box : DraftBox τ) (s : Saves τ) (e : SaveEvent τ) (s' : Saves τ) : Prop :=
  SaveStep box s e s' ∧ s.undisturbed box e = true ∧ s'.unspent = true

end Outbox
end SyncEngine
