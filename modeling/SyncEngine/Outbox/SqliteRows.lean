import SyncEngine.Outbox.Grant
import SyncEngine.Outbox.Sqlite

/-!
# What each transaction does to the rows

Short of a claim's own grants and of an enqueue, every transaction rewrites rows in place:
it keeps what they were queued with, never lowers a token and puts no row in flight.
`Kept` says this of one table against another, and a claim is `Kept` by its recovery and then
grants what it answers with.
-/

namespace SyncEngine
namespace Outbox

/-- What a rewritten row keeps. -/
structure RowKept (r r' : OpRow) : Prop where
  account : r'.account = r.account
  kind : r'.kind = r.kind
  resourceKey : r'.resourceKey = r.resourceKey
  token : r.token ≤ r'.token
  inFlight : r'.state = .inFlight → r.state = .inFlight

theorem RowKept.refl (r : OpRow) : RowKept r r := ⟨rfl, rfl, rfl, Nat.le_refl _, fun h => h⟩

theorem RowKept.trans {r r' r'' : OpRow} (h : RowKept r r') (h' : RowKept r' r'') : RowKept r r'' :=
  ⟨h'.account.trans h.account, h'.kind.trans h.kind, h'.resourceKey.trans h.resourceKey,
    Nat.le_trans h.token h'.token, fun hs => h.inFlight (h'.inFlight hs)⟩

/-- Every row of `t` is in `t'` under its id, rewritten in place, and `t'` has no other. -/
def Kept (t t' : Table OpRow) : Prop := Table.Related (fun _ => RowKept) t t'

theorem Kept.refl (t : Table OpRow) : Kept t t := Table.Related.refl (fun _ => RowKept.refl) t

variable {t : Table OpRow}

theorem Kept.trans {t' t'' : Table OpRow} (h : Kept t t') (h' : Kept t' t'') : Kept t t'' :=
  Table.Related.trans (fun _ _ _ _ => RowKept.trans) h h'

theorem Kept.modify {id : Nat} {f : OpRow → OpRow} (hf : ∀ r, RowKept r (f r)) : Kept t (t.modify id f) :=
  Table.Related.modify (fun _ => RowKept.refl) hf

namespace Sqlite

variable {db db' : Sqlite} {id : Nat} {now : UtcDateTime} {op : OpRow}

variable {f : OpRow → OpRow}

theorem update_kept (hf : ∀ r, RowKept r (f r)) : Kept db.pendingOp (db.update id f).pendingOp := Kept.modify hf

theorem updateState_kept (hf : ∀ r, RowKept r (f r)) : Kept db.pendingOp (db.updateState id f).pendingOp := Kept.modify hf

variable {outcome : PendingOutcome}

theorem record_kept (h : db.record id op now outcome = .ok db') : Kept db.pendingOp db'.pendingOp := by
  unfold record at h
  cases hr : op.recorded outcome now with
  | error e => rw [hr] at h; exact absurd h (by simp [Except.map])
  | ok r =>
    rw [hr] at h
    cases h
    refine updateState_kept fun row => ⟨rfl, rfl, rfl, Nat.le_refl _, ?_⟩
    intro hs
    exact absurd hs (recordOutcome_lands hr).state_ne.1

theorem recover_kept (h : db.recover id op now = .ok db') : Kept db.pendingOp db'.pendingOp := by
  refine Kept.trans (update_kept ?_) (record_kept h)
  exact fun r => ⟨rfl, rfl, rfl, Nat.le_succ _, fun hs => hs⟩

variable {ops : List (Nat × OpRow)}

theorem recoverAll_kept (h : recoverAll now ops db = .ok db') : Kept db.pendingOp db'.pendingOp := by
  induction ops generalizing db with
  | nil =>
    cases h
    exact Kept.refl _
  | cons r rest ih =>
    obtain ⟨id, op⟩ := r
    rw [recoverAll] at h
    split at h
    · simp at h
    · rename_i mid hmid
      exact (recover_kept hmid).trans (ih h)

variable {j : Nat}

theorem recover_row (h : db.recover id op now = .ok db') : (j ≠ id → db'.pendingOp.get? j = db.pendingOp.get? j) ∧
      ∀ r, db'.pendingOp.get? id = some r → r.state ≠ .inFlight := by
  unfold recover record at h
  cases hr : op.recorded op.interrupted now with
  | error e => rw [hr] at h; exact absurd h (by simp [Except.map])
  | ok recorded =>
    rw [hr] at h
    cases h
    simp only [updateState_pendingOp, update_pendingOp]
    constructor
    · intro hj
      rw [Table.get?_modify_ne _ _ hj, Table.get?_modify_ne _ _ hj]
    · intro r hget
      rw [Table.get?_modify_self, Option.map_eq_some_iff] at hget
      obtain ⟨row, -, rfl⟩ := hget
      exact (recordOutcome_lands hr).state_ne.1

variable {r : OpRow}

theorem recoverAll_row (h : recoverAll now ops db = .ok db') (hr : db'.pendingOp.get? j = some r) (hs : r.state = .inFlight) :
    (∀ o ∈ ops, o.1 ≠ j) ∧ db.pendingOp.get? j = some r := by
  induction ops generalizing db with
  | nil =>
    cases h
    exact ⟨by simp, hr⟩
  | cons o rest ih =>
    obtain ⟨id, op⟩ := o
    rw [recoverAll] at h
    split at h
    · simp at h
    · rename_i mid hmid
      obtain ⟨hrest, hget⟩ := ih h
      obtain ⟨hother, hself⟩ := recover_row (j := j) hmid
      have hne : j ≠ id := by
        rintro rfl
        exact hself r hget hs
      refine ⟨?_, (hother hne) ▸ hget⟩
      intro o ho
      rcases List.mem_cons.mp ho with rfl | ho
      · exact hne.symm
      · exact hrest o ho

variable {account : AccountId}

/-! ## Loading -/

theorem parseOpRow_ok {r r' : OpRow} (h : parseOpRow r = .ok r') : r' = r := by
  unfold parseOpRow at h
  split at h
  · simp at h
  rename_i leaseExpiry hlease
  cases hdue : parseOptInstant r.nextAttemptAt with
  | error e => rw [hdue] at h; exact absurd h (by simp [Except.map])
  | ok nextAttemptAt =>
    rw [hdue] at h
    cases h
    rw [parseOptInstant_ok hlease, parseOptInstant_ok hdue]

theorem parseOpRows_ok {rows : List (Nat × OpRow)} (h : parseOpRows rows = .ok ops) : ops = rows := by
  induction rows generalizing ops with
  | nil =>
    cases h
    rfl
  | cons r rest ih =>
    obtain ⟨id, r⟩ := r
    rw [parseOpRows] at h
    split at h
    · simp at h
    rename_i op hop
    cases hrest : parseOpRows rest with
    | error e => rw [hrest] at h; exact absurd h (by simp [Except.map])
    | ok loaded =>
      rw [hrest] at h
      cases h
      rw [parseOpRow_ok hop, ih hrest]

theorem loadOneOp_ok {found : Option OpRow} (h : db.loadOneOp account id = .ok found) : found = db.rowOne account id := by
  unfold loadOneOp at h
  split at h
  · rename_i hnone
    cases h
    exact hnone.symm
  · rename_i row hrow
    cases hparse : parseOpRow row with
    | error e => rw [hparse] at h; exact absurd h (by simp [Except.map])
    | ok loaded =>
      rw [hparse] at h
      cases h
      rw [parseOpRow_ok hparse, hrow]

theorem recoverDead_ok (h : db.recoverDead account now = .ok db') :
    recoverAll now ((db.inFlightRows (some account)).filter fun r => r.2.isDead now) db = .ok db' := by
  unfold recoverDead at h
  split at h
  · simp at h
  rename_i loaded hload
  rwa [parseOpRows_ok hload] at h

theorem recoverDead_live (h : db.recoverDead account now = .ok db') (hr : db'.pendingOp.get? j = some r) (hacc : r.account = account)
    (hs : r.state = .inFlight) : isLive r.leaseExpiry now = true := by
  obtain ⟨hnone, hget⟩ := recoverAll_row (recoverDead_ok h) hr hs
  by_contra hlive
  refine hnone (j, r) (List.mem_filter.mpr ⟨List.mem_filter.mpr ⟨?_, ?_⟩, ?_⟩) rfl
  · exact (db.pendingOp.get?_eq_some_iff).mp hget
  · simp [hs, hacc]
  · simpa [OpRow.isDead, hs] using hlive

theorem recoverDead_kept (h : db.recoverDead account now = .ok db') : Kept db.pendingOp db'.pendingOp :=
  recoverAll_kept (recoverDead_ok h)

/-! ## Grants -/

instance : QueuedRow OpRow where
  account r := r.account
  resourceKey r := r.resourceKey
  state r := r.state
  token r := r.token
  nextAttemptAt r := r.nextAttemptAt
  leased r expiry :=
    { r with token := r.token + 1, state := .inFlight, leaseExpiry := some expiry }
  account_leased _ _ := rfl
  resourceKey_leased _ _ := rfl
  state_leased _ _ := rfl
  token_leased _ _ := rfl

variable {n : PendingOpId} {m : Nat}

theorem opIdToI64_ok (h : opIdToI64 n = .ok m) : m = n := by
  unfold opIdToI64 at h
  split at h
  · cases h
    rfl
  · simp at h

theorem rowOne_eq_some (h : db.rowOne account id = some r) : db.pendingOp.get? id = some r ∧ r.account = account := by
  simpa [rowOne, Option.filter_eq_some_iff] using h

theorem loadOneOp_some (h : db.loadOneOp account id = .ok (some r)) :
    db.pendingOp.get? id = some r ∧ r.account = account :=
  rowOne_eq_some (loadOneOp_ok h).symm

theorem mem_accountRows : (id, r) ∈ db.accountRows account ↔ db.pendingOp.get? id = some r ∧ r.account = account := by
  rw [accountRows, List.mem_filter, db.pendingOp.get?_eq_some_iff, decide_eq_true_eq]

theorem accountRows_sorted (db : Sqlite) (account : AccountId) : (db.accountRows account).Pairwise fun a b => a.1 < b.1 :=
  db.pendingOp.sorted.filter _

variable {dependsOn : List PendingOpId}

theorem dependenciesLoaded_done (h : dependenciesLoaded (db.accountRows account) dependsOn = true) :
    ∀ d ∈ dependsOn, Done db.pendingOp account d := by
  intro d hd
  have hall := List.all_eq_true.mp h d hd
  split at hall
  · rename_i n hn
    obtain rfl := opIdToI64_ok hn
    rw [Option.any_eq_true] at hall
    obtain ⟨dep, hdep, hsucc⟩ := hall
    rw [Table.lookup_eq_some_iff (accountRows_sorted db account), mem_accountRows] at hdep
    exact ⟨dep, hdep.1, hdep.2, PendingOpState.isSuccess_iff.mp hsucc⟩
  · simp at hall

theorem dependenciesMet_done (h : db.dependenciesMet account dependsOn = .ok true) :
    ∀ d ∈ dependsOn, Done db.pendingOp account d := by
  induction dependsOn with
  | nil => simp
  | cons dep rest ih =>
    rw [dependenciesMet] at h
    split at h
    · simp at h
    · rename_i n hn
      obtain rfl := opIdToI64_ok hn
      split at h
      · rename_i hany
        rw [Option.any_eq_true] at hany
        obtain ⟨r, hr, hsucc⟩ := hany
        obtain ⟨hget, hacc⟩ := rowOne_eq_some hr
        intro d hd
        rcases List.mem_cons.mp hd with rfl | hd
        · exact ⟨r, hget, hacc, PendingOpState.isSuccess_iff.mp hsucc⟩
        · exact ih h d hd
      · simp at h

variable {envelope : PendingOp}

theorem toPendingOp_ok {kind : PendingOpKind} (h : db.toPendingOp id op kind = .ok envelope) :
    envelope.resourceKey = op.resourceKey ∧ envelope.dependsOn = op.dependsOn := by
  unfold toPendingOp at h
  cases hp : parsePayload id (db.payload.get? id) with
  | error e => rw [hp] at h; exact absurd h (by simp [Except.map])
  | ok text =>
    rw [hp] at h
    cases h
    exact ⟨rfl, rfl⟩

variable {owner : WorkerId} {expiry : UtcDateTime}

theorem granted_leaseRow {db₀ : Sqlite} (h₀ : db₀.pendingOp.get? id = some op)
    (h : db.pendingOp.get? id = some op) (hacc : op.account = account) (hs : op.state = .pending)
    (hdue : op.isDue now = true) (hres : envelope.resourceKey = op.resourceKey)
    (hdep : ∀ d ∈ envelope.dependsOn, Done db₀.pendingOp account d) :
    Granted now db₀.pendingOp (db.leaseRow id op expiry).pendingOp
      ⟨id, envelope, ⟨account, id, op.token + 1, owner, expiry⟩⟩ op where
  row := h₀
  waiting := hs
  due := fun instant hat => by
    change op.nextAttemptAt = some instant at hat
    simpa [OpRow.isDue, hat] using hdue
  dependencies := by
    show ∀ d ∈ envelope.dependsOn, Done db₀.pendingOp op.account d
    rw [hacc]
    exact hdep
  resource := hres
  op := rfl
  ofAccount := hacc.symm
  nextToken := rfl
  after := by
    rw [leaseRow, updateState_pendingOp, Table.get?_modify_self, h]
    rfl

theorem leaseRow_get?_ne (hj : j ≠ id) : (db.leaseRow id op expiry).pendingOp.get? j = db.pendingOp.get? j :=
  Table.get?_modify_ne _ _ hj

section ClaimLoop

variable {db₀ : Sqlite} {account : AccountId} {owner : WorkerId} {expiry : UtcDateTime}
  {limit : Nat} {busy : List ResourceKey}

theorem claimLoop_claimed {rows : List (Nat × OpRow)} {newly : List ResourceKey}
    {result leased : List LeasedPendingOp} (h : Claimed now db₀.pendingOp db.pendingOp result)
    (hrows : rows.Pairwise fun a b => a.1 < b.1)
    (hload : ∀ r ∈ rows, db₀.pendingOp.get? r.1 = some r.2 ∧ r.2.account = account)
    (hnew : ∀ l ∈ result, ∀ r ∈ rows, l.id ≠ r.1)
    (htaken : ∀ l ∈ result, l.op.resourceKey ∈ newly)
    (hbusy : ∀ j q, db₀.pendingOp.get? j = some q → q.account = account → q.state = .inFlight → q.resourceKey ∈ busy)
    (hloop : claimLoop account owner expiry now limit (db₀.accountRows account) busy rows db
      newly result = .ok (db', leased)) :
    Claimed now db₀.pendingOp db'.pendingOp leased := by
  induction rows generalizing db newly result with
  | nil =>
    cases hloop
    exact h
  | cons r rest ih =>
    obtain ⟨id, op⟩ := r
    rw [List.pairwise_cons] at hrows
    obtain ⟨hrow, hacc⟩ := hload (id, op) List.mem_cons_self
    have hload' : ∀ r ∈ rest, db₀.pendingOp.get? r.1 = some r.2 ∧ r.2.account = account :=
      fun r hr => hload r (List.mem_cons_of_mem _ hr)
    have hnew' : ∀ l ∈ result, ∀ r ∈ rest, l.id ≠ r.1 := fun l hl r hr => hnew l hl r (List.mem_cons_of_mem _ hr)
    have hid : ∀ l ∈ result, l.id ≠ id := fun l hl => hnew l hl (id, op) List.mem_cons_self
    rw [claimLoop] at hloop
    split at hloop
    · cases hloop
      exact h
    split at hloop
    · exact ih h hrows.2 hload' hnew' htaken hloop
    rename_i hrunnable
    split at hloop
    · exact ih h hrows.2 hload' hnew' htaken hloop
    rename_i hdeps
    split at hloop
    · exact ih h hrows.2 hload' hnew' htaken hloop
    rename_i hfree
    split at hloop
    · exact ih h hrows.2 hload' hnew' htaken hloop
    rename_i kind hkind
    dsimp only at hloop
    split at hloop
    · simp at hloop
    rename_i envelope henv
    simp only [OpRow.isRunnable, Bool.not_eq_true', Bool.not_eq_false, Bool.and_eq_true, decide_eq_true_eq] at hrunnable
    simp only [Bool.not_eq_true', Bool.not_eq_false] at hdeps
    simp only [Bool.or_eq_true, List.contains_eq_mem, decide_eq_true_eq, not_or] at hfree
    obtain ⟨hkey, hdepsOn⟩ := toPendingOp_ok henv
    have hdone := dependenciesLoaded_done hdeps
    refine ih (h.snoc hid (granted_leaseRow hrow ((h.kept id hid).trans hrow) hacc
      hrunnable.1.2 hrunnable.2 hkey (hdepsOn ▸ hdone)) (fun j hj => leaseRow_get?_ne hj) ?_ ?_)
      hrows.2 hload' ?_ ?_ hloop
    · intro l hl heq
      exact hfree.2 (hkey ▸ heq ▸ htaken l hl)
    · intro j q hq hqa hqs heq
      have hmem := hbusy j q hq hqa hqs
      exact hfree.1 (hkey ▸ (heq : q.resourceKey = envelope.resourceKey) ▸ hmem)
    · intro l hl r hr
      rcases List.mem_append.mp hl with hl | hl
      · exact hnew' l hl r hr
      · rw [List.mem_singleton] at hl
        subst hl
        exact Nat.ne_of_lt (hrows.1 r hr)
    · intro l hl
      rcases List.mem_append.mp hl with hl | hl
      · exact List.mem_cons_of_mem _ (htaken l hl)
      · rw [List.mem_singleton] at hl
        subst hl
        exact hkey ▸ List.mem_cons_self

end ClaimLoop

variable {α : Type} {body : Result (Sqlite × α)}

theorem transact_ok {r : Result α} (h : db.transact body = (db', r)) :
    (∃ a, body = .ok (db', a) ∧ r = .ok a) ∨ (∃ e, body = .error e ∧ r = .error e ∧ db' = db) := by
  unfold transact at h
  split at h
  · rename_i mid a
    cases h
    exact Or.inl ⟨a, rfl, rfl⟩
  · rename_i e
    cases h
    exact Or.inr ⟨e, rfl, rfl, rfl⟩

variable {req : LeaseRequest} {limit : Nat}

theorem claim_ok {leased : List LeasedPendingOp} (h : db.claim account req limit now = (db', .ok leased)) :
    ∃ ready, db.recoverDead account now = .ok ready ∧ Claimed now ready.pendingOp db'.pendingOp leased := by
  unfold claim at h
  split at h
  · simp at h
  split at h
  · simp at h
  rename_i ready hready
  refine ⟨ready, hready, ?_⟩
  split at h
  · simp at h
  rename_i ops hload
  obtain rfl := parseOpRows_ok hload
  rcases transact_ok h with ⟨ls, hloop, hr⟩ | ⟨e, -, hr, -⟩
  · cases hr
    refine claimLoop_claimed (Claimed.nil _) (accountRows_sorted ready account) ?_ (by simp) (by simp) ?_ hloop
    · exact fun r hr => mem_accountRows.mp hr
    · intro j q hq hqa hqs
      exact List.mem_map.mpr ⟨(j, q), List.mem_filter.mpr ⟨mem_accountRows.mpr ⟨hq, hqa⟩, by simpa using hqs⟩, rfl⟩
  · simp at hr

theorem anyLive_eq_false {expiries : List (Option UtcDateTime)} (h : anyLive now expiries = .ok false) :
    ∀ expiry ∈ expiries, isLive expiry now = false := by
  induction expiries with
  | nil => simp
  | cons first rest ih =>
    rw [anyLive] at h
    split at h
    · simp at h
    rename_i expiry hparse
    obtain rfl := parseOptInstant_ok hparse
    split at h
    · simp at h
    rename_i hdead
    intro e he
    rcases List.mem_cons.mp he with rfl | he
    · simpa using hdead
    · exact ih h e he

theorem resourceHeldElsewhere_eq_false {resource : ResourceKey}
    (h : db.resourceHeldElsewhere account resource id now = .ok false)
    (hr : db.pendingOp.get? j = some r) (hj : j ≠ id) (hacc : r.account = account)
    (hst : r.state = .inFlight) (hlive : isLive r.leaseExpiry now = true) :
    r.resourceKey ≠ resource := by
  intro hres
  have hrow : (j, r) ∈ db.pendingOp.rows := (db.pendingOp.get?_eq_some_iff).mp hr
  have hdead := anyLive_eq_false h r.leaseExpiry
    (List.mem_map.mpr ⟨(j, r), List.mem_filter.mpr ⟨hrow, by simp [hj, hacc, hst, hres]⟩, rfl⟩)
  exact Bool.false_ne_true (hdead.symm.trans hlive)

theorem stateRefusal_eq_none (h : stateRefusal now op = none) : op.state = .pending ∧ op.isDue now = true := by
  cases hp : op.state with
  | pending =>
    simp only [stateRefusal, hp] at h
    by_cases hdue : op.isDue now = true
    · exact ⟨rfl, hdue⟩
    · rw [if_neg hdue] at h
      simp at h
  | _ => simp [stateRefusal, hp] at h

theorem claimOneIn_ok {claim : PendingOpClaim} (h : db.claimOneIn account id owner now expiry = .ok (db', claim)) :
    ∃ ready, db.recoverDead account now = .ok ready ∧ ((∃ refusal, claim = .refused refusal ∧ db' = ready) ∨
        ∃ l, claim = .leased l ∧ Claimed now ready.pendingOp db'.pendingOp [l]) := by
  unfold claimOneIn at h
  split at h
  · simp at h
  rename_i ready hready
  refine ⟨ready, hready, ?_⟩
  split at h
  · simp at h
  · cases h; exact Or.inl ⟨_, rfl, rfl⟩
  rename_i op hload
  obtain ⟨hget, hacc⟩ := loadOneOp_some hload
  split at h
  · cases h; exact Or.inl ⟨_, rfl, rfl⟩
  rename_i kind hkind
  split at h
  · cases h; exact Or.inl ⟨_, rfl, rfl⟩
  rename_i hstate
  obtain ⟨hs, hdue⟩ := stateRefusal_eq_none hstate
  split at h
  · simp at h
  · cases h; exact Or.inl ⟨_, rfl, rfl⟩
  rename_i hdeps
  split at h
  · simp at h
  · cases h; exact Or.inl ⟨_, rfl, rfl⟩
  rename_i hheld
  dsimp only at h
  cases henv : (ready.leaseRow id op expiry).toPendingOp id op kind with
  | error e => rw [henv] at h; exact absurd h (by simp [Except.map])
  | ok envelope =>
    rw [henv] at h
    cases h
    obtain ⟨hkey, hdepsOn⟩ := toPendingOp_ok henv
    refine Or.inr ⟨_, rfl, ?_⟩
    refine (Claimed.nil _).snoc (by simp) (granted_leaseRow hget hget hacc hs hdue hkey
      (hdepsOn ▸ dependenciesMet_done hdeps)) (fun j hj => leaseRow_get?_ne hj) (by simp) ?_
    intro j q hq hqa hqs
    show q.resourceKey ≠ envelope.resourceKey
    rw [hkey]
    refine resourceHeldElsewhere_eq_false hheld hq ?_ hqa hqs (recoverDead_live hready hq hqa hqs)
    rintro rfl
    rw [hget, Option.some.injEq] at hq
    subst hq
    exact absurd (hs.symm.trans hqs) (by simp)

theorem claimOne_ok {l : LeasedPendingOp} (h : db.claimOne account n req now = (db', .ok (.leased l))) :
    ∃ ready, db.recoverDead account now = .ok ready ∧ Claimed now ready.pendingOp db'.pendingOp [l] := by
  unfold claimOne at h
  split at h
  · simp at h
  split at h
  · simp at h
  rcases transact_ok h with ⟨claim, hin, hr⟩ | ⟨e, -, hr, -⟩
  · obtain ⟨ready, hready, hcase⟩ := claimOneIn_ok hin
    rw [Except.ok.injEq] at hr
    rcases hcase with ⟨refusal, hc, -⟩ | ⟨g, hc, hclaim⟩
    · rw [hc] at hr
      simp at hr
    · rw [hc, PendingOpClaim.leased.injEq] at hr
      exact ⟨ready, hready, hr ▸ hclaim⟩
  · simp at hr

/-! ## One call -/

/-- What a call that inserts no row does: rows rewritten in place, then grants. -/
def Acts (e : Entry) (db db' : Sqlite) : Prop :=
  ∃ mid, Kept db.pendingOp mid ∧ Claimed e.now mid db'.pendingOp e.reply.granted

variable {e : Entry}

theorem Acts.of_kept (h : Kept db.pendingOp db'.pendingOp) (hg : e.reply.granted = []) : Acts e db db' :=
  ⟨db'.pendingOp, h, hg ▸ Claimed.nil _⟩

theorem transact_fst {P : Sqlite → Prop} (hdb : P db) (hbody : ∀ mid a, body = .ok (mid, a) → P mid) :
    P (db.transact body).1 := by
  unfold transact
  split
  · exact hbody _ _ rfl
  · exact hdb

theorem transact_kept (hbody : ∀ mid a, body = .ok (mid, a) → Kept db.pendingOp mid.pendingOp) :
    Kept db.pendingOp (db.transact body).1.pendingOp :=
  transact_fst (P := fun d => Kept db.pendingOp d.pendingOp) (Kept.refl _) hbody

theorem hostVerb_fst {P : Sqlite → Prop} {act : Sqlite → Nat → OpRow → Sqlite × Option OpRejection} (hdb : P db)
    (hrecover : ∀ op mid, db.pendingOp.get? n = some op → op.isDead now = true → db.recover n op now = .ok mid → P mid)
    (hact : ∀ mid op, P mid → mid.pendingOp.get? n = some op → P (act mid n op).1) :
    P (db.hostVerb account n now act).1 := by
  unfold hostVerb
  split
  · exact hdb
  rename_i i hi
  obtain rfl := opIdToI64_ok hi
  split
  · exact hdb
  · exact hdb
  rename_i op hload
  split
  · rename_i hdead
    split
    · exact hdb
    · rename_i mid hmid
      split
      · exact hdb
      · exact hdb
      · rename_i hload'
        exact hact _ _ (hrecover op mid (loadOneOp_some hload).1 hdead hmid) (loadOneOp_some hload').1
  · exact hact _ _ hdb (loadOneOp_some hload).1

theorem hostVerb_kept {act : Sqlite → Nat → OpRow → Sqlite × Option OpRejection}
    (hact : ∀ db id op, Kept db.pendingOp (act db id op).1.pendingOp) :
    Kept db.pendingOp (db.hostVerb account n now act).1.pendingOp :=
  hostVerb_fst (P := fun d => Kept db.pendingOp d.pendingOp) (Kept.refl _) (fun _ _ _ _ h => recover_kept h)
    fun mid op h _ => h.trans (hact mid n op)

theorem rearm_kept : Kept db.pendingOp (db.rearm id).pendingOp :=
  updateState_kept fun r => ⟨rfl, rfl, rfl, Nat.le_succ _, by simp⟩

theorem cancelAct_kept : Kept db.pendingOp (cancelAct db id op).1.pendingOp := by
  unfold cancelAct
  split
  · exact Kept.refl _
  · exact updateState_kept fun r => ⟨rfl, rfl, rfl, Nat.le_succ _, by simp⟩

theorem retryNowAct_kept : Kept db.pendingOp (retryNowAct db id op).1.pendingOp := by
  unfold retryNowAct
  split
  · exact Kept.refl _
  · split
    · exact rearm_kept
    · exact update_kept fun r => ⟨rfl, rfl, rfl, Nat.le_refl _, fun h => h⟩

theorem confirmAct_kept {confirmation : Confirmation} :
    Kept db.pendingOp (confirmAct confirmation db id op).1.pendingOp := by
  unfold confirmAct
  split
  · split
    · exact updateState_kept fun r => ⟨rfl, rfl, rfl, Nat.le_succ _, by simp⟩
    · exact rearm_kept
  · exact Kept.refl _
  · exact Kept.refl _

theorem reconcileOp_kept {rec : ReconciledOp} {b : Bool}
    (h : db.reconcileOp rec now = .ok (db', b)) : Kept db.pendingOp db'.pendingOp := by
  unfold reconcileOp at h
  split at h
  · simp at h
  dsimp only at h
  split at h
  · simp at h
  rename_i mid hmid
  have hkept : Kept db.pendingOp mid.pendingOp := by
    split at hmid
    · exact recoverDead_kept hmid
    · cases hmid
      exact Kept.refl _
  split at h
  · cases h
    exact hkept.trans (updateState_kept fun r => ⟨rfl, rfl, rfl, Nat.le_refl _, by simp⟩)
  · cases h
    exact hkept

theorem reconcileLoop_kept {recs : List ReconciledOp} {n : Nat}
    (h : reconcileLoop now recs db n = .ok (db', m)) : Kept db.pendingOp db'.pendingOp := by
  induction recs generalizing db n with
  | nil =>
    cases h
    exact Kept.refl _
  | cons rec rest ih =>
    rw [reconcileLoop] at h
    split at h
    · simp at h
    · rename_i mid hmid
      exact (reconcileOp_kept hmid).trans (ih h)
    · rename_i mid hmid
      exact (reconcileOp_kept hmid).trans (ih h)

theorem claim_cases {r : Result (List LeasedPendingOp)} (h : db.claim account req limit now = (db', r)) :
    db' = db ∧ (Reply.leased r).granted = [] ∨ ∃ ready, db.recoverDead account now = .ok ready ∧
      Claimed now ready.pendingOp db'.pendingOp (Reply.leased r).granted := by
  cases r with
  | error err =>
    refine .inl ⟨?_, rfl⟩
    unfold claim at h
    split at h
    · cases h; rfl
    split at h
    · cases h; rfl
    split at h
    · cases h; rfl
    · rcases transact_ok h with ⟨a, -, hok⟩ | ⟨e, -, -, rfl⟩
      · simp at hok
      · rfl
  | ok leased => exact .inr (claim_ok h)

theorem claimOne_cases {r : Result PendingOpClaim} (h : db.claimOne account n req now = (db', r)) :
    db' = db ∧ (Reply.claimed r).granted = [] ∨ ∃ ready, db.recoverDead account now = .ok ready ∧
      Claimed now ready.pendingOp db'.pendingOp (Reply.claimed r).granted := by
  unfold claimOne at h
  split at h
  · cases h; exact .inl ⟨rfl, rfl⟩
  split at h
  · cases h; exact .inl ⟨rfl, rfl⟩
  rcases transact_ok h with ⟨claim, hin, rfl⟩ | ⟨err, -, rfl, rfl⟩
  · obtain ⟨ready, hready, hcase⟩ := claimOneIn_ok hin
    rcases hcase with ⟨refusal, rfl, rfl⟩ | ⟨g, rfl, hclaim⟩
    · exact .inr ⟨_, hready, Claimed.nil _⟩
    · exact .inr ⟨_, hready, hclaim⟩
  · exact .inl ⟨rfl, rfl⟩

theorem Acts.of_claim {ls : List LeasedPendingOp} (hg : e.reply.granted = ls)
    (h : db' = db ∧ ls = [] ∨ ∃ ready, db.recoverDead account e.now = .ok ready ∧
      Claimed e.now ready.pendingOp db'.pendingOp ls) : Acts e db db' := by
  subst hg
  rcases h with ⟨rfl, hnone⟩ | ⟨ready, hready, hclaim⟩
  · exact .of_kept (Kept.refl _) hnone
  · exact ⟨_, recoverDead_kept hready, hclaim⟩

variable {lease : OpLease}

theorem mark_kept : Kept db.pendingOp (db.mark lease outcome now).1.pendingOp := by
  unfold mark
  split
  · exact Kept.refl _
  split
  · exact Kept.refl _
  · exact Kept.refl _
  split
  · refine transact_kept ?_
    intro mid a hbody
    cases hrec : db.record _ _ now outcome with
    | error e => rw [hrec] at hbody; exact absurd hbody (by simp [Except.map])
    | ok recorded =>
      rw [hrec] at hbody
      cases hbody
      exact record_kept hrec
  · exact Kept.refl _

theorem handOver_kept : Kept db.pendingOp (db.handOver lease).1.pendingOp := by
  unfold handOver
  split
  · exact Kept.refl _
  split
  · exact Kept.refl _
  · exact update_kept fun r => ⟨rfl, rfl, rfl, Nat.le_refl _, fun h => h⟩

theorem renew_kept {ttl : Nat} : Kept db.pendingOp (db.renew lease ttl now).1.pendingOp := by
  unfold renew
  split
  · exact Kept.refl _
  split
  · exact Kept.refl _
  split
  · exact Kept.refl _
  · exact update_kept fun r => ⟨rfl, rfl, rfl, Nat.le_refl _, fun h => h⟩

theorem recoverInterrupted_kept : Kept db.pendingOp (db.recoverInterrupted now).1.pendingOp := by
  unfold recoverInterrupted
  split
  · exact Kept.refl _
  rename_i ops hload
  refine transact_kept ?_
  intro mid a hbody
  cases hrec : recoverAll now ops db with
  | error e => rw [hrec] at hbody; exact absurd hbody (by simp [Except.map])
  | ok recovered =>
    rw [hrec] at hbody
    cases hbody
    exact recoverAll_kept hrec

theorem run_cases (h : run db e.call e.now = (db', e.reply)) : (∃ account op, e.call = .enqueue account op ∧
      e.reply = .enqueued (.ok db.pendingOp.nextRowid) ∧
      db'.pendingOp = db.pendingOp.insert db.pendingOp.nextRowid (queuedRow account op)) ∨
    Acts e db db' := by
  obtain ⟨call, now, reply⟩ := e
  simp only at h
  cases call with
  | enqueue account op =>
    cases h
    unfold enqueue
    cases hex : db.existing account op.idempotencyKey with
    | some id => exact Or.inr (.of_kept (Kept.refl _) rfl)
    | none => exact Or.inl ⟨account, op, rfl, rfl, rfl⟩
  | claimOps account req limit => cases h; exact Or.inr (.of_claim rfl (claim_cases rfl))
  | claimOne account id req => cases h; exact Or.inr (.of_claim rfl (claimOne_cases rfl))
  | handOver lease => cases h; exact Or.inr (.of_kept handOver_kept rfl)
  | renew lease ttl => cases h; exact Or.inr (.of_kept renew_kept rfl)
  | mark lease outcome => cases h; exact Or.inr (.of_kept mark_kept rfl)
  | recoverInterrupted => cases h; exact Or.inr (.of_kept recoverInterrupted_kept rfl)
  | cancel account id =>
    cases h
    exact Or.inr (.of_kept (hostVerb_kept fun _ _ _ => cancelAct_kept) rfl)
  | retryNow account id =>
    cases h
    exact Or.inr (.of_kept (hostVerb_kept fun _ _ _ => retryNowAct_kept) rfl)
  | confirm account id confirmation =>
    cases h
    exact Or.inr (.of_kept (hostVerb_kept fun _ _ _ => confirmAct_kept) rfl)
  | reconcile recs =>
    cases h
    exact Or.inr (.of_kept (transact_kept fun _ _ hb => reconcileLoop_kept hb) rfl)
  | list account => cases h; exact Or.inr (.of_kept (Kept.refl _) rfl)

end Sqlite
end Outbox
end SyncEngine
