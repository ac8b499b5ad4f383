import SyncEngine.Outbox.Change
import SyncEngine.Outbox.Grant

/-!
# What each store call does to the ops

`Allows` lists, for one call of a run with its answer, the changes it can make to the
op under an id.  `run_cases` is the one place where the verbs are taken apart:
a call either queues a new op, or moves every op through allowed changes and then
grants the leases it answers with.
-/

namespace SyncEngine
namespace Outbox

/-- The changes the call of an entry may make to the op under `id`. -/
def Allows (e : Entry) (id : PendingOpId) : Change → Prop
  | .recover | .renew _ | .stamp => True
  | .mark l outcome => e.call = .mark l outcome ∧ l.op = id ∧ e.reply = .done (.ok ())
  | .handOver l => e.call = .handOver l ∧ l.op = id ∧ e.reply = .done (.ok ())
  | .cancel => ∃ account, e.call = .cancel account id ∧ e.reply = .verdict (.ok none)
  | .retryNow => ∃ account, e.call = .retryNow account id ∧ e.reply = .verdict (.ok none)
  | .confirm confirmation =>
    ∃ account, e.call = .confirm account id confirmation ∧ e.reply = .verdict (.ok none)
  | .reconcile expected => ∃ recs, e.call = .reconcile recs ∧ ⟨id, expected⟩ ∈ recs

/-! ## Recovery and the sweep -/

section Parts

variable {now : UtcDateTime} {P : PendingOpId → Change → Prop} {ops : Ops}

variable {c c' : OpCell}

theorem recoverIfDead_path {Q : Change → Prop} (hQ : Q .recover)
    (h : c.recoverIfDead now = .ok c') : Path now Q c c' := by
  unfold OpCell.recoverIfDead at h
  split at h
  · rename_i hdead
    have hs : c.state = .inFlight := by
      simp only [OpCell.isDead, Bool.and_eq_true, decide_eq_true_eq] at hdead
      exact hdead.1
    exact Path.single (.recover hs h) hQ
  · cases h
    exact Path.refl c

theorem recoverDead_moves (hP : ∀ id, P id .recover) (account : AccountId) :
    Moves now P ops (Mem.recoverDead ops account now).1 := by
  refine Moves.tryMap ?_
  intro id c c' hok
  split at hok
  · exact recoverIfDead_path (hP id) hok
  · cases hok
    exact Path.refl c

theorem sweep_moves (hP : ∀ id, P id .stamp) : Moves now P ops (Mem.sweep ops now) := by
  refine Table.Related.mapRows _ ?_
  intro id c
  split
  · rename_i h
    simp only [Bool.and_eq_true] at h
    exact Path.single (.stamp h.1) (hP id)
  · exact Path.refl c

theorem insert_sweep_moves {id : PendingOpId} (hc : ops.get? id = some c)
    (hp : Path now (P id) c c') (hP : ∀ id, P id .stamp) :
    Moves now P ops (Mem.sweep (ops.insert id c') now) :=
  (Moves.insert hc hp).trans (sweep_moves hP)

end Parts

/-! ## Claims -/

instance : QueuedRow OpCell where
  account c := c.account
  resourceKey c := c.op.resourceKey
  state c := c.state
  token c := c.token
  nextAttemptAt c := c.nextAttemptAt
  leased c expiry :=
    { c with token := c.token + 1, state := .inFlight, leaseExpiry := some expiry }
  account_leased _ _ := rfl
  resourceKey_leased _ _ := rfl
  state_leased _ _ := rfl
  token_leased _ _ := rfl

variable {ops : Ops} {account : AccountId} {cell : OpCell}

theorem dependenciesMet_iff : Mem.dependenciesMet ops account cell = true ↔
      ∀ d ∈ cell.op.dependsOn, Done ops account d := by
  simp only [Mem.dependenciesMet, List.all_eq_true, Option.any_eq_true, Bool.and_eq_true,
    decide_eq_true_eq, PendingOpState.isSuccess_iff]
  rfl

variable {now : UtcDateTime} {o : OpCell}

theorem runnable_iff : Mem.runnable ops account now o = true ↔ o.account = account ∧ o.state = .pending ∧
      o.isDue now = true ∧ Mem.dependenciesMet ops account o = true := by
  simp only [Mem.runnable, Bool.and_eq_true, decide_eq_true_eq, and_assoc]

section ClaimLoop

variable {now expiry : UtcDateTime} {ops₀ ops : Ops} {account : AccountId} {req : LeaseRequest}
  {limit : Nat} {result : List LeasedPendingOp}

theorem granted_lease {id : PendingOpId} {o : OpCell} (ho : ops₀.get? id = some o)
    (hs : o.state = .pending) (hdue : o.isDue now = true)
    (hd : Mem.dependenciesMet ops₀ o.account o = true) :
    Granted now ops₀ (ops.insert id (Mem.lease o id req expiry).1) (Mem.lease o id req expiry).2 o where
  row := ho
  waiting := hs
  due := fun instant hat => by
    change o.nextAttemptAt = some instant at hat
    simpa [OpCell.isDue, hat] using hdue
  dependencies := dependenciesMet_iff.mp hd
  resource := rfl
  op := rfl
  ofAccount := rfl
  nextToken := rfl
  after := by
    rw [Table.get?_insert]
    exact if_pos rfl

theorem claimLoop_claimed {ids : List PendingOpId} {taken : List ResourceKey}
    (h : Claimed now ops₀ ops result) (hids : ids.Nodup) (hnew : ∀ l ∈ result, l.id ∉ ids)
    (htaken : ∀ l ∈ result, l.op.resourceKey ∈ taken)
    (hheld : ∀ j p, ops₀.get? j = some p → p.account = account → p.state = .inFlight → p.op.resourceKey ∈ taken) :
    Claimed now ops₀ (Mem.claimLoop account req expiry now limit ids ops taken result).1
      (Mem.claimLoop account req expiry now limit ids ops taken result).2 := by
  induction ids generalizing ops taken result with
  | nil => exact h
  | cons id ids ih =>
    rw [List.nodup_cons] at hids
    have hskip : ∀ l ∈ result, l.id ∉ ids := fun l hl hm => hnew l hl (List.mem_cons_of_mem _ hm)
    have hid : ∀ l ∈ result, l.id ≠ id := fun l hl e => hnew l hl (e ▸ List.mem_cons_self)
    rw [Mem.claimLoop]
    split
    · exact h
    · split
      · exact ih h hids.2 hskip htaken hheld
      · rename_i o ho
        split
        · rename_i hrun
          simp only [Bool.and_eq_true, runnable_iff, Bool.not_eq_eq_eq_not, Bool.not_true,
            List.contains_eq_mem, decide_eq_false_iff_not] at hrun
          obtain ⟨⟨hacc, hst, hdue, hdep⟩, hnt⟩ := hrun
          have ho₀ : ops₀.get? id = some o := by rw [← h.kept id hid]; exact ho
          have hdep₀ : Mem.dependenciesMet ops₀ o.account o = true := by
            rw [hacc]
            exact dependenciesMet_iff.mpr fun d hd =>
              h.done_before (dependenciesMet_iff.mp hdep d hd)
          refine ih (h.snoc hid (granted_lease ho₀ hst hdue hdep₀) ?_ ?_ ?_) hids.2 ?_ ?_ ?_
          · intro j hj
            rw [Table.get?_insert]
            exact if_neg hj
          · intro l hl e
            exact hnt (e ▸ htaken l hl)
          · intro j p hp hpa hps e
            exact hnt (e ▸ hheld j p hp (hpa.trans hacc) hps)
          · intro l hl hm
            rcases List.mem_append.mp hl with hl | hl
            · exact hskip l hl hm
            · rw [List.mem_singleton] at hl
              subst hl
              exact hids.1 hm
          · intro l hl
            rcases List.mem_append.mp hl with hl | hl
            · exact List.mem_cons_of_mem _ (htaken l hl)
            · rw [List.mem_singleton] at hl
              subst hl
              exact List.mem_cons_self
          · intro j p hp hpa hps
            exact List.mem_cons_of_mem _ (hheld j p hp hpa hps)
        · exact ih h hids.2 hskip htaken hheld

end ClaimLoop

variable {id : PendingOpId}

theorem takenResources_mem (ho : ops.get? id = some o) (hacc : o.account = account) (hst : o.state = .inFlight) :
    o.op.resourceKey ∈ Mem.takenResources ops account := by
  simp only [Mem.takenResources, List.mem_map, List.mem_filter, Bool.and_eq_true, decide_eq_true_eq]
  exact ⟨o, ⟨ops.mem_values_iff.mpr ⟨id, ho⟩, hacc, hst⟩, rfl⟩

theorem claimLoop_start (ops : Ops) (account : AccountId) (req : LeaseRequest) (expiry now : UtcDateTime) (limit : Nat) :
    Claimed now ops (Mem.claimLoop account req expiry now limit ops.keys ops (Mem.takenResources ops account) []).1
      (Mem.claimLoop account req expiry now limit ops.keys ops (Mem.takenResources ops account) []).2 := by
  refine claimLoop_claimed (Claimed.nil ops) ?_ (by simp) (by simp) ?_
  · exact (List.pairwise_map.mpr ops.sorted).imp Nat.ne_of_lt
  · intro j p hp hpa hps
    exact takenResources_mem hp hpa hps

theorem claimRefusal_eq_none (h : Mem.claimRefusal ops account id now cell = none) :
    cell.state = .pending ∧ cell.isDue now = true ∧ Mem.dependenciesMet ops account cell = true ∧
      Mem.resourceHeld ops account cell.op.resourceKey id = false := by
  simp only [Mem.claimRefusal, Option.or_eq_none_iff] at h
  obtain ⟨⟨hs, hd⟩, hr⟩ := h
  have hstate : cell.state = .pending ∧ cell.isDue now = true := by
    cases hp : cell.state with
    | pending =>
      simp only [Mem.stateRefusal, hp] at hs
      by_cases hdue : cell.isDue now = true
      · exact ⟨rfl, hdue⟩
      · rw [if_neg hdue] at hs
        simp at hs
    | _ => simp [Mem.stateRefusal, hp] at hs
  refine ⟨hstate.1, hstate.2, ?_, ?_⟩
  · by_contra hn
    rw [if_neg hn] at hd
    simp at hd
  · by_contra hn
    rw [if_pos (by simpa using hn)] at hr
    simp at hr

theorem resourceHeld_eq_false {resource : ResourceKey} (h : Mem.resourceHeld ops account resource id = false)
    {j : PendingOpId} (ho : ops.get? j = some o) (hj : j ≠ id)
    (hacc : o.account = account) (hst : o.state = .inFlight) : o.op.resourceKey ≠ resource := by
  intro hres
  have hany := List.any_eq_false.mp h (j, o) ((ops.get?_eq_some_iff).mp ho)
  exact hany (by simp [hj, hacc, hst, hres])

theorem claimOne_claimed (req : LeaseRequest) (expiry : UtcDateTime) (hc : ops.get? id = some cell)
    (hacc : cell.account = account) (h : Mem.claimRefusal ops account id now cell = none) :
    Claimed now ops (ops.insert id (Mem.lease cell id req expiry).1) [(Mem.lease cell id req expiry).2] := by
  obtain ⟨hs, hdue, hd, hr⟩ := claimRefusal_eq_none h
  refine (Claimed.nil ops).snoc (by simp) (granted_lease hc hs hdue (hacc ▸ hd)) ?_ (by simp) ?_
  · intro j hj
    rw [Table.get?_insert]
    exact if_neg hj
  · intro j p hp hpa hps
    refine resourceHeld_eq_false hr hp ?_ (hpa.trans hacc) hps
    rintro rfl
    rw [hc, Option.some.injEq] at hp
    subst hp
    exact absurd (hs.symm.trans hps) (by simp)

/-! ## One call -/

/-- What a call that queues no new op does: allowed changes, then grants. -/
structure Acts (e : Entry) (s s' : Mem) : Prop where
  nextOp : s'.nextOp = s.nextOp
  idempotency : s'.idempotency = s.idempotency
  ops : ∃ mid, Moves e.now (Allows e) s.ops mid ∧ Claimed e.now mid s'.ops e.reply.granted

theorem Acts.of_moves {e : Entry} {s : Mem} (h : Moves e.now (Allows e) s.ops ops)
    (hg : e.reply.granted = []) : Acts e s { s with ops } :=
  ⟨rfl, rfl, ops, h, hg ▸ Claimed.nil ops⟩

section Calls

variable {s s' : Mem} {e : Entry} {account : AccountId} {id : PendingOpId} {lease : OpLease}

variable {req : LeaseRequest} {limit : Nat}

theorem claimOps_acts {r : Result (List LeasedPendingOp)}
    (h : s.claimOps account req limit e.now = (s', r)) (hr : e.reply = .leased r) :
    Acts e s s' := by
  have hrec : Moves e.now (Allows e) s.ops (Mem.recoverDead s.ops account e.now).1 :=
    recoverDead_moves (fun _ => trivial) account
  unfold Mem.claimOps at h
  split at h
  · cases h
    exact .of_moves (Moves.refl _) (by rw [hr]; rfl)
  · split at h
    · rename_i ops err hdead
      rw [hdead] at hrec
      cases h
      exact .of_moves hrec (by rw [hr]; rfl)
    · rename_i ops hdead
      rw [hdead] at hrec
      cases h
      refine ⟨rfl, rfl, Mem.sweep ops e.now, hrec.trans (sweep_moves fun _ => trivial), ?_⟩
      rw [hr]
      exact claimLoop_start _ _ _ _ _ _

variable {ops : Ops} {c : OpCell}

theorem filter_account_eq_some (h : ((ops.get? id).filter fun o => decide (o.account = account)) = some c) :
    ops.get? id = some c ∧ c.account = account := by
  simpa [Option.filter_eq_some_iff] using h

theorem claimOne_acts {r : Result PendingOpClaim}
    (h : s.claimOne account id req e.now = (s', r)) (hr : e.reply = .claimed r) :
    Acts e s s' := by
  have hrec : Moves e.now (Allows e) s.ops (Mem.recoverDead s.ops account e.now).1 :=
    recoverDead_moves (fun _ => trivial) account
  unfold Mem.claimOne at h
  split at h
  · cases h
    exact .of_moves (Moves.refl _) (by rw [hr]; rfl)
  · split at h
    · rename_i ops err hdead
      rw [hdead] at hrec
      cases h
      exact .of_moves hrec (by rw [hr]; rfl)
    · rename_i ops hdead
      rw [hdead] at hrec
      have hmid : Moves e.now (Allows e) s.ops (Mem.sweep ops e.now) := hrec.trans (sweep_moves fun _ => trivial)
      dsimp only at h
      split at h
      · cases h
        exact .of_moves hmid (by rw [hr]; rfl)
      · rename_i cell hcell
        obtain ⟨hget, hacc⟩ := filter_account_eq_some hcell
        split at h
        · cases h
          exact .of_moves hmid (by rw [hr]; rfl)
        · rename_i hnone
          cases h
          refine ⟨rfl, rfl, _, hmid, ?_⟩
          rw [hr]
          exact claimOne_claimed req _ hget hacc hnone

variable {now : UtcDateTime}

theorem claimOps_ok {leased : List LeasedPendingOp} (h : s.claimOps account req limit now = (s', .ok leased)) :
    Claimed now (Mem.ready s.ops account now) s'.ops leased := by
  unfold Mem.claimOps at h
  split at h
  · simp at h
  · split at h
    · simp at h
    · rename_i ops hdead
      cases h
      rw [Mem.ready, hdead]
      exact claimLoop_start _ _ _ _ _ _

theorem claimOne_ok {l : LeasedPendingOp} (h : s.claimOne account id req now = (s', .ok (.leased l))) :
    Claimed now (Mem.ready s.ops account now) s'.ops [l] := by
  unfold Mem.claimOne at h
  split at h
  · simp at h
  · split at h
    · simp at h
    · rename_i ops hdead
      dsimp only at h
      rw [Mem.ready, hdead]
      split at h
      · simp at h
      · rename_i cell hcell
        obtain ⟨hget, hacc⟩ := filter_account_eq_some hcell
        split at h
        · simp at h
        · rename_i hnone
          cases h
          exact claimOne_claimed req _ hget hacc hnone

theorem mark_acts {outcome : PendingOutcome} {r : Result Unit}
    (h : s.mark lease outcome e.now = (s', r)) (he : e.call = .mark lease outcome)
    (hr : e.reply = .done r) : Acts e s s' := by
  have hg : e.reply.granted = [] := by rw [hr]; rfl
  unfold Mem.mark at h
  split at h
  · cases h
    exact .of_moves (Moves.refl _) hg
  · rename_i c hc
    split at h
    · rename_i hadm
      split at h
      · cases h
        exact .of_moves (Moves.refl _) hg
      · rename_i c' hrec
        cases h
        refine .of_moves (insert_sweep_moves hc ?_ fun _ => trivial) hg
        exact Path.single (.mark hadm hrec) ⟨he, rfl, hr⟩
    · cases h
      exact .of_moves (Moves.refl _) hg

theorem held_eq_some (h : Mem.held ops lease = some c) :
    ops.get? lease.op = some c ∧ c.token = lease.token ∧ c.state = .inFlight := by
  simpa [Mem.held, Option.filter_eq_some_iff] using h

theorem handOver_acts {r : Result Unit} (h : s.handOver lease = (s', r))
    (he : e.call = .handOver lease) (hr : e.reply = .done r) : Acts e s s' := by
  have hg : e.reply.granted = [] := by rw [hr]; rfl
  unfold Mem.handOver at h
  split at h
  · cases h
    exact .of_moves (Moves.refl _) hg
  · rename_i c hheld
    obtain ⟨hc, ht, hs⟩ := held_eq_some hheld
    cases h
    refine .of_moves (Moves.insert hc ?_) hg
    exact Path.single (.handOver ht hs) ⟨he, rfl, hr⟩

theorem renew_acts {ttl : Nat} {r : Result Unit} (h : s.renew lease ttl e.now = (s', r))
    (hr : e.reply = .done r) : Acts e s s' := by
  have hg : e.reply.granted = [] := by rw [hr]; rfl
  unfold Mem.renew at h
  split at h
  · cases h
    exact .of_moves (Moves.refl _) hg
  · split at h
    · cases h
      exact .of_moves (Moves.refl _) hg
    · rename_i c hheld
      obtain ⟨hc, -, hs⟩ := held_eq_some hheld
      cases h
      exact .of_moves (Moves.insert hc (Path.single (.renew hs) trivial)) hg

theorem recoverInterrupted_acts {r : Result Nat} (h : s.recoverInterrupted e.now = (s', r))
    (hr : e.reply = .counted r) : Acts e s s' := by
  have hg : e.reply.granted = [] := by rw [hr]; rfl
  have hmoves : Moves e.now (Allows e) s.ops (s.ops.tryMap fun _ cell =>
      if cell.state = .inFlight then cell.recover e.now else .ok cell).1 := by
    refine Moves.tryMap ?_
    intro id c c' hok
    split at hok
    · rename_i hs
      exact Path.single (.recover hs hok) trivial
    · cases hok
      exact Path.refl c
  unfold Mem.recoverInterrupted at h
  split at h
  · rename_i ops err hrec
    rw [hrec] at hmoves
    cases h
    exact .of_moves hmoves hg
  · rename_i ops hrec
    rw [hrec] at hmoves
    cases h
    exact .of_moves (hmoves.trans (sweep_moves fun _ => trivial)) hg

variable {r : Result (Option OpRejection)}

theorem hostVerb_acts {act : OpCell → OpCell × Option OpRejection} (h : s.hostVerb account id e.now act = (s', r))
    (hr : e.reply = .verdict r)
    (hact : ∀ c, (act c).1 = c ∨ ((act c).2 = none ∧ (r = .ok none → ∃ x, Changes e.now c x (act c).1 ∧ Allows e id x))) :
    Acts e s s' := by
  have hg : e.reply.granted = [] := by rw [hr]; rfl
  unfold Mem.hostVerb at h
  split at h
  · cases h
    exact .of_moves (Moves.refl _) hg
  · rename_i c hc
    obtain ⟨hget, -⟩ := filter_account_eq_some hc
    split at h
    · cases h
      exact .of_moves (Moves.refl _) hg
    · rename_i c' hrec
      have hpath : Path e.now (Allows e id) c c' := recoverIfDead_path trivial hrec
      cases h
      refine .of_moves (insert_sweep_moves hget (hpath.trans ?_) fun _ => trivial) hg
      rcases hact c' with heq | ⟨hnone, hx⟩
      · rw [heq]
        exact Path.refl c'
      · obtain ⟨x, hch, hal⟩ := hx (by rw [hnone])
        exact Path.single hch hal

theorem cancel_acts (h : s.cancel account id e.now = (s', r))
    (he : e.call = .cancel account id) (hr : e.reply = .verdict r) : Acts e s s' := by
  refine hostVerb_acts h hr ?_
  intro c
  cases hn : Mem.hostRefusal c with
  | some refusal => left; simp only [Mem.cancelAct, hn]
  | none =>
    refine Or.inr ⟨by simp only [Mem.cancelAct, hn], fun hok => ⟨_, .cancel hn, ?_⟩⟩
    exact ⟨account, he, by rw [hr, hok]⟩

theorem retryNow_acts (h : s.retryNow account id e.now = (s', r)) (he : e.call = .retryNow account id)
    (hr : e.reply = .verdict r) : Acts e s s' := by
  refine hostVerb_acts h hr ?_
  intro c
  cases hn : Mem.hostRefusal c with
  | some refusal => left; simp only [Mem.retryNowAct, hn]
  | none =>
    refine Or.inr ⟨by simp only [Mem.retryNowAct, hn], fun hok => ⟨_, .retryNow hn, ?_⟩⟩
    exact ⟨account, he, by rw [hr, hok]⟩

theorem confirm_acts {confirmation : Confirmation} (h : s.confirm account id confirmation e.now = (s', r))
    (he : e.call = .confirm account id confirmation) (hr : e.reply = .verdict r) :
    Acts e s s' := by
  refine hostVerb_acts h hr ?_
  intro c
  by_cases hs : c.state = .needsConfirmation
  · refine Or.inr ⟨?_, fun hok => ⟨_, .confirm hs, ⟨account, he, by rw [hr, hok]⟩⟩⟩
    simp only [Mem.confirmAct, hs]
    cases confirmation with
    | delivered => rfl
    | notDelivered => rfl
  · left
    unfold Mem.confirmAct
    split
    · rename_i hs'
      exact absurd hs' hs
    · rfl
    · rfl

variable {recs : List ReconciledOp}

theorem reconcileLoop_moves {all : List ReconciledOp} {ops' : Ops} {n : Nat}
    {r : Result Nat} (he : e.call = .reconcile all) (hsub : ∀ x ∈ recs, x ∈ all)
    (h : Mem.reconcileLoop e.now recs ops n = (ops', r)) : Moves e.now (Allows e) ops ops' := by
  induction recs generalizing ops n with
  | nil =>
    cases h
    exact Moves.refl _
  | cons rec rest ih =>
    have hrest : ∀ x ∈ rest, x ∈ all := fun x hx => hsub x (List.mem_cons_of_mem _ hx)
    rw [Mem.reconcileLoop] at h
    split at h
    · exact ih hrest h
    · rename_i c hc
      split at h
      · cases h
        exact Moves.refl _
      · rename_i c' hrec
        have hpath : Path e.now (Allows e rec.op) c c' := recoverIfDead_path trivial hrec
        split at h
        · rename_i hexp
          refine (Moves.insert hc (hpath.trans ?_)).trans (ih hrest h)
          exact Path.single (.reconcile hexp) ⟨all, he, hsub rec List.mem_cons_self⟩
        · exact (Moves.insert hc hpath).trans (ih hrest h)

theorem reconcile_acts {r : Result Nat} (h : s.reconcile recs e.now = (s', r)) (he : e.call = .reconcile recs)
    (hr : e.reply = .counted r) : Acts e s s' := by
  have hg : e.reply.granted = [] := by rw [hr]; rfl
  unfold Mem.reconcile at h
  split at h
  · rename_i ops err hloop
    cases h
    exact .of_moves (reconcileLoop_moves he (fun _ hx => hx) hloop) hg
  · rename_i ops n hloop
    cases h
    exact .of_moves ((reconcileLoop_moves he (fun _ hx => hx) hloop).trans (sweep_moves fun _ => trivial)) hg

theorem enqueue_acts {op : PendingOp} {r : Result PendingOpId}
    (h : s.enqueue account op = (s', r)) (hr : e.reply = .enqueued r) :
    (r = .ok s.nextOp ∧ s'.ops = s.ops.insert s.nextOp (OpCell.queued account op) ∧
      s'.nextOp = s.nextOp + 1) ∨ Acts e s s' := by
  unfold Mem.enqueue at h
  split at h
  · cases h
    exact Or.inr (.of_moves (Moves.refl _) (by rw [hr]; rfl))
  · cases h
    exact Or.inl ⟨rfl, rfl, rfl⟩

theorem run_cases (h : Mem.run s e.call e.now = (s', e.reply)) :
    (∃ account op, e.call = .enqueue account op ∧ e.reply = .enqueued (.ok s.nextOp) ∧
      s'.ops = s.ops.insert s.nextOp (OpCell.queued account op) ∧ s'.nextOp = s.nextOp + 1) ∨
    Acts e s s' := by
  obtain ⟨call, now, reply⟩ := e
  simp only at h
  cases call with
  | enqueue account op =>
    cases h
    rcases enqueue_acts (e := ⟨.enqueue account op, now, _⟩) (s := s) rfl rfl with
      ⟨hr, hops, hnext⟩ | hacts
    · exact Or.inl ⟨account, op, rfl, congrArg Reply.enqueued hr, hops, hnext⟩
    · exact Or.inr hacts
  | claimOps account req limit => cases h; exact Or.inr (claimOps_acts rfl rfl)
  | claimOne account id req => cases h; exact Or.inr (claimOne_acts rfl rfl)
  | handOver lease => cases h; exact Or.inr (handOver_acts rfl rfl rfl)
  | renew lease ttl => cases h; exact Or.inr (renew_acts rfl rfl)
  | mark lease outcome => cases h; exact Or.inr (mark_acts rfl rfl rfl)
  | recoverInterrupted => cases h; exact Or.inr (recoverInterrupted_acts rfl rfl)
  | cancel account id => cases h; exact Or.inr (cancel_acts rfl rfl rfl)
  | retryNow account id => cases h; exact Or.inr (retryNow_acts rfl rfl rfl)
  | confirm account id confirmation => cases h; exact Or.inr (confirm_acts rfl rfl rfl)
  | reconcile recs => cases h; exact Or.inr (reconcile_acts rfl rfl rfl)
  | list account =>
    cases h
    exact Or.inr (.of_moves (Moves.refl _) rfl)

end Calls

end Outbox
end SyncEngine
