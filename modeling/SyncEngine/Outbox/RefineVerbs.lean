import SyncEngine.Outbox.RefineClaims

/-!
# The verbs of the two stores
-/

namespace SyncEngine
namespace Outbox

open Table

/-! ## The worker's and the host's verbs -/

section Verbs

variable {s : Mem} {db : Sqlite} {id : PendingOpId} {c : OpCell} {account : AccountId}
  {lease : OpLease} {now : UtcDateTime}

def Fits (s : Mem) (lease : OpLease) : Prop :=
  ∀ c, s.ops.get? lease.op = some c → c.account = lease.account

theorem Refines.mark (h : Refines s db) (hnow : Written now) (hfit : Fits s lease)
    (hid : rowid lease.op < 9223372036854775808) {outcome : PendingOutcome}
    (hopen : ∀ c r, s.ops.get? lease.op = some c → Mem.admits c lease = true →
      c.recorded outcome now = .ok r → staysListed (some c.op.kind) r.state = true →
      c.listed = true) :
    (db.mark (OpLease.rename lease) outcome now).2 = (s.mark lease outcome now).2 ∧
      Refines (s.mark lease outcome now).1 (db.mark (OpLease.rename lease) outcome now).1 := by
  unfold Sqlite.mark Mem.mark
  have hload := h.loadOneOp lease.account lease.op
  have hI64 : opIdToI64 (OpLease.rename lease).op = .ok (rowid lease.op) := opIdToI64_rowid hid
  have hacc : (OpLease.rename lease).account = lease.account := rfl
  simp only [hI64, hacc, hload]
  cases hc : s.ops.get? lease.op with
  | none => exact ⟨rfl, h⟩
  | some c =>
    have hkeep : (some c).filter (fun o => decide (o.account = lease.account)) = some c := by simp [hfit c hc]
    have hadm : Sqlite.admits (rowOf c) (OpLease.rename lease) = Mem.admits c lease := by
      unfold Sqlite.admits Mem.admits
      congr 1
      exact decide_eq_decide.mpr eq_comm
    simp only [hkeep, Option.map_some, hadm]
    cases ha : Mem.admits c lease with
    | false => exact ⟨rfl, h⟩
    | true =>
      simp only [if_true]
      cases hrec : c.record outcome now with
      | error e =>
        have herr := Sqlite.record_rowOf_error db (rowid lease.op) hrec
        simp only [herr]
        exact ⟨rfl, h⟩
      | ok c' =>
        have hl : c'.listed = true → c.listed = true := by
          intro hl
          obtain ⟨r, hr, rfl⟩ := OpCell.record_eq_ok.mp hrec
          exact hopen c r hc ha hr hl
        obtain ⟨db', hdb', hrel⟩ := h.record hnow hc hrec hl
        simp only [hdb']
        exact ⟨rfl, hrel.sweep now⟩

theorem Refines.held (h : Refines s db) (hfit : Fits s lease) :
    db.held (OpLease.rename lease) (rowid lease.op) = (Mem.held s.ops lease).map rowOf := by
  unfold Sqlite.held Mem.held
  rw [h.get?]
  cases hc : s.ops.get? lease.op with
  | none => rfl
  | some c =>
    have hacc := hfit c hc
    by_cases htok : c.token = lease.token
    · by_cases hs : c.state = .inFlight
      · simp [Option.filter, rowOf, OpLease.rename, hacc, htok, hs]
      · simp [Option.filter, rowOf, OpLease.rename, hacc, htok, hs]
    · simp [Option.filter, rowOf, OpLease.rename, hacc, htok]

theorem Refines.handOver (h : Refines s db) (hfit : Fits s lease) (hid : rowid lease.op < 9223372036854775808) :
    (db.handOver (OpLease.rename lease)).2 = (s.handOver lease).2 ∧
      Refines (s.handOver lease).1 (db.handOver (OpLease.rename lease)).1 := by
  have hI64 : opIdToI64 (OpLease.rename lease).op = .ok (rowid lease.op) := opIdToI64_rowid hid
  unfold Sqlite.handOver Mem.handOver
  simp only [hI64, h.held hfit]
  cases hc : Mem.held s.ops lease with
  | none => exact ⟨rfl, h⟩
  | some c =>
    obtain ⟨hget, -⟩ := Option.filter_eq_some_iff.mp hc
    have hr : Rewrite c { c with handedOver := some lease.token } :=
      ⟨rfl, rfl, fun hl => hl, fun hd => ⟨hd.lease, hd.due⟩⟩
    exact ⟨rfl, h.update hget hr rfl⟩

theorem Refines.renew (h : Refines s db) (hnow : Written now) (hfit : Fits s lease)
    (hid : rowid lease.op < 9223372036854775808) (ttl : Nat) :
    (db.renew (OpLease.rename lease) ttl now).2 = (s.renew lease ttl now).2 ∧
      Refines (s.renew lease ttl now).1 (db.renew (OpLease.rename lease) ttl now).1 := by
  have hI64 : opIdToI64 (OpLease.rename lease).op = .ok (rowid lease.op) := opIdToI64_rowid hid
  unfold Sqlite.renew Mem.renew
  cases hexp : expiryAfter now ttl with
  | error e => exact ⟨rfl, h⟩
  | ok expiry =>
    simp only [hI64, h.held hfit]
    cases hc : Mem.held s.ops lease with
    | none => exact ⟨rfl, h⟩
    | some c =>
      obtain ⟨hget, -⟩ := Option.filter_eq_some_iff.mp hc
      have hr : Rewrite c { c with leaseExpiry := some expiry } := ⟨rfl, rfl, fun hl => hl,
        fun hd => ⟨fun t ht => Option.some.inj ht ▸ written_expiryAfter hnow hexp, hd.due⟩⟩
      exact ⟨rfl, h.update hget hr rfl⟩

/-- A decision of the durable store writes what the reference one writes. -/
def Decides (id : PendingOpId) (act : OpCell → OpCell × Option OpRejection)
    (actRow : Sqlite → Nat → OpRow → Sqlite × Option OpRejection) : Prop :=
  ∀ s db c, Refines s db → s.ops.get? id = some c →
    (actRow db (rowid id) (rowOf c)).2 = (act c).2 ∧
      Refines { s with ops := s.ops.insert id (act c).1 } (actRow db (rowid id) (rowOf c)).1

theorem Refines.hostVerb (h : Refines s db) (account : AccountId) (hnow : Written now)
    (hid : rowid id < 9223372036854775808) {act : OpCell → OpCell × Option OpRejection}
    {actRow : Sqlite → Nat → OpRow → Sqlite × Option OpRejection} (hact : Decides id act actRow) :
    (db.hostVerb account (rowid id) now actRow).2 = (s.hostVerb account id now act).2 ∧
      Refines (s.hostVerb account id now act).1 (db.hostVerb account (rowid id) now actRow).1 := by
  unfold Sqlite.hostVerb Mem.hostVerb
  simp only [opIdToI64_rowid hid, h.loadOneOp account id]
  cases hc : (s.ops.get? id).filter fun o => decide (o.account = account) with
  | none => exact ⟨rfl, h⟩
  | some c =>
    obtain ⟨hget, hacc⟩ := Option.filter_eq_some_iff.mp hc
    by_cases hdead : c.isDead now = true
    · have hs : c.state = .inFlight := by
        simp only [OpCell.isDead, Bool.and_eq_true, decide_eq_true_eq] at hdead
        exact hdead.1
      simp only [Option.map_some, isDead_rowOf, OpCell.recoverIfDead, hdead, if_true]
      cases hrec : c.recover now with
      | error e =>
        rw [Sqlite.recover_rowOf_error db (rowid id) hrec]
        exact ⟨rfl, h⟩
      | ok c' =>
        obtain ⟨db', hdb', hrel⟩ := h.recover hnow hget hs hrec
        have hget' : (s.ops.insert id c').get? id = some c' := by rw [get?_insert, if_pos rfl]
        have hacc' : c'.account = account := (OpCell.recover_frame hrec).1.trans (of_decide_eq_true hacc)
        have hkeep : ((s.ops.insert id c').get? id).filter (fun o => decide (o.account = account)) = some c' := by
          rw [hget']
          simp [hacc']
        have hload : db'.loadOneOp account (rowid id) = .ok (some (rowOf c')) := by
          rw [hrel.loadOneOp account id, hkeep]
          rfl
        obtain ⟨hres, hfin⟩ := hact _ db' c' hrel hget'
        simp only [hdb', hload]
        refine ⟨congrArg Except.ok hres, ?_⟩
        have hfin' := hfin.sweep now
        simp only [insert_insert] at hfin'
        exact hfin'
    · simp only [Option.map_some, isDead_rowOf, OpCell.recoverIfDead, hdead, if_false, Bool.false_eq_true]
      obtain ⟨hres, hrel⟩ := hact s db c h hget
      exact ⟨congrArg Except.ok hres, hrel.sweep now⟩

theorem listed_of_hostRefusal (h : Mem.hostRefusal c = none) : c.listed = true := by
  rcases hostRefusal_eq_none h with hs | ⟨hs, hk⟩
  · simp [OpCell.listed, staysListed, hs, PendingOpState.isTerminal]
  · simp [OpCell.listed, staysListed, hs, hk]

theorem cancel_decides (id : PendingOpId) : Decides id Mem.cancelAct Sqlite.cancelAct := by
  intro s db c h hc
  have href : Sqlite.refusal (rowOf c) = Mem.hostRefusal c := rfl
  unfold Sqlite.cancelAct Mem.cancelAct
  rw [href]
  cases hr : Mem.hostRefusal c with
  | some refused =>
    refine ⟨rfl, ?_⟩
    rw [insert_self hc]
    exact h
  | none =>
    have hrw : Rewrite c
        { c with token := c.token + 1, state := .cancelled, leaseExpiry := none, nextAttemptAt := none } :=
      ⟨rfl, rfl, fun _ => listed_of_hostRefusal hr, fun _ => OpCell.dated_of_none rfl rfl⟩
    exact ⟨rfl, h.updateState hc hrw rfl⟩

theorem retryNow_decides (id : PendingOpId) : Decides id Mem.retryNowAct Sqlite.retryNowAct := by
  intro s db c h hc
  have href : Sqlite.refusal (rowOf c) = Mem.hostRefusal c := rfl
  unfold Sqlite.retryNowAct Mem.retryNowAct
  rw [href]
  cases hr : Mem.hostRefusal c with
  | some refused =>
    refine ⟨rfl, ?_⟩
    rw [insert_self hc]
    exact h
  | none =>
    have hstate : (rowOf c).state = c.state := rfl
    simp only [hstate]
    by_cases hs : c.state = .failed
    · have hrw : Rewrite c { c.rearm with nextAttemptAt := none } :=
        ⟨rfl, rfl, fun _ => listed_of_hostRefusal hr, fun _ => OpCell.dated_of_none rfl rfl⟩
      rw [if_pos hs, if_pos hs]
      exact ⟨rfl, h.updateState hc hrw rfl⟩
    · have hrw : Rewrite c { c with nextAttemptAt := none } :=
        ⟨rfl, rfl, fun hl => hl, fun hd => ⟨hd.lease, fun t ht => absurd ht (by simp)⟩⟩
      rw [if_neg hs, if_neg hs]
      exact ⟨rfl, h.update hc hrw rfl⟩

theorem confirm_decides (id : PendingOpId) (confirmation : Confirmation) :
    Decides id (Mem.confirmAct confirmation) (Sqlite.confirmAct confirmation) := by
  intro s db c h hc
  have hstate : (rowOf c).state = c.state := rfl
  have hself : Refines { s with ops := s.ops.insert id c } db := by
    rw [insert_self hc]
    exact h
  unfold Sqlite.confirmAct Mem.confirmAct
  rw [hstate]
  cases hs : c.state with
  | needsConfirmation =>
    have hl : c.listed = true := by simp [OpCell.listed, staysListed, hs, PendingOpState.isTerminal]
    cases confirmation with
    | delivered =>
      have hrw : Rewrite c { c with token := c.token + 1, state := .succeeded, handedOver := none } :=
        ⟨rfl, rfl, fun _ => hl, fun hd => ⟨hd.lease, hd.due⟩⟩
      exact ⟨rfl, h.updateState hc hrw rfl⟩
    | notDelivered =>
      have hrw : Rewrite c c.rearm := ⟨rfl, rfl, fun _ => hl, fun _ => OpCell.dated_of_none rfl rfl⟩
      exact ⟨rfl, h.updateState hc hrw rfl⟩
  | inFlight => exact ⟨rfl, hself⟩
  | pending => exact ⟨rfl, hself⟩
  | succeeded => exact ⟨rfl, hself⟩
  | failed => exact ⟨rfl, hself⟩
  | cancelled => exact ⟨rfl, hself⟩

end Verbs

/-! ## An applied page

The reference store recovers an op when the page comes to it.  The durable store, when the
page names one op in flight, recovers every dead attempt of its account there and then.
Where every op it reaches is named by the page anyway, it is only early. -/

section Reconcile

variable {now : UtcDateTime} {r : ReconciledOp} {rest recs : List ReconciledOp} {ops early : Ops}
  {id : PendingOpId} {c x : OpCell}

def namedBy (recs : List ReconciledOp) : List PendingOpId := recs.map ReconciledOp.op

/-- The page reaches no dead attempt but those it names, and can recover each of them. -/
structure Confined (now : UtcDateTime) (recs : List ReconciledOp) (ops : Ops) : Prop where
  room : ∀ id c, ops.get? id = some c → c.isDead now = true → ∃ c', c.recover now = .ok c'
  named : ∀ r ∈ recs, ∀ c, ops.get? r.op = some c → c.state = .inFlight →
    ∀ id d, ops.get? id = some d → d.account = c.account → d.isDead now = true → id ∈ namedBy recs

/-- A cell of the durable store is the reference one's, or its recovery done early. -/
def EarlyCell (now : UtcDateTime) (recs : List ReconciledOp) (id : PendingOpId) (c c' : OpCell) :
    Prop :=
  c' = c ∨ (c.isDead now = true ∧ id ∈ namedBy recs ∧ c' = c.recovered now)

theorem OpCell.isDead_inFlight (h : c.isDead now = true) : c.state = .inFlight := by
  simp only [OpCell.isDead, Bool.and_eq_true, decide_eq_true_eq] at h
  exact h.1

theorem OpCell.not_dead_of_ne (h : c.state ≠ .inFlight) : c.isDead now = false := by simp [OpCell.isDead, h]

theorem OpCell.recovered_ne (h : ∃ c', c.recover now = .ok c') : (c.recovered now).state ≠ .inFlight :=
  OpCell.recover_not_inFlight (OpCell.recover_of_ok h)

/-- A cell as the page finds it. -/
def OpCell.found (c : OpCell) (now : UtcDateTime) : OpCell :=
  if c.isDead now then c.recovered now else c

theorem OpCell.found_not_dead (h : c.isDead now = true → ∃ c', c.recover now = .ok c') :
    (c.found now).isDead now = false := by
  unfold OpCell.found
  by_cases hd : c.isDead now = true
  · rw [if_pos hd]
    exact OpCell.not_dead_of_ne (OpCell.recovered_ne (h hd))
  · rw [if_neg hd]
    simpa using hd

theorem OpCell.found_inFlight (h : c.isDead now = true → ∃ c', c.recover now = .ok c')
    (hs : (c.found now).state = .inFlight) : c.found now = c := by
  unfold OpCell.found at hs ⊢
  by_cases hd : c.isDead now = true
  · rw [if_pos hd] at hs
    exact absurd hs (OpCell.recovered_ne (h hd))
  · rw [if_neg hd]

theorem Confined.skip (h : Confined now (r :: rest) ops) (hr : ops.get? r.op = none) : Confined now rest ops := by
  refine ⟨h.room, ?_⟩
  intro r' hr' c hc hs id d hd hacc hdead
  have hin := h.named r' (List.mem_cons_of_mem _ hr') c hc hs id d hd hacc hdead
  rcases List.mem_cons.mp hin with hid | hin
  · rw [hid, hr] at hd
    simp at hd
  · exact hin

theorem Confined.next (h : Confined now (r :: rest) ops) (hc : ops.get? r.op = some c)
    (hx : x.isDead now = false) (hfly : x.state = .inFlight → x = c) :
    Confined now rest (ops.insert r.op x) := by
  have hget : ∀ j d, (ops.insert r.op x).get? j = some d → d.isDead now = true → j ≠ r.op ∧ ops.get? j = some d := by
    intro j d hd hdead
    rw [get?_insert] at hd
    by_cases hj : j = r.op
    · rw [if_pos hj, Option.some.injEq] at hd
      rw [← hd, hx] at hdead
      simp at hdead
    · rw [if_neg hj] at hd
      exact ⟨hj, hd⟩
  refine ⟨?_, ?_⟩
  · intro j d hd hdead
    exact h.room j d (hget j d hd hdead).2 hdead
  · intro r' hr' c' hc' hs j d hd hacc hdead
    obtain ⟨hj, hd'⟩ := hget j d hd hdead
    have hin : j ∈ namedBy (r :: rest) := by
      rw [get?_insert] at hc'
      by_cases hr : r'.op = r.op
      · rw [if_pos hr, Option.some.injEq] at hc'
        have hxc : c' = c := hc'.symm.trans (hfly (hc'.symm ▸ hs))
        rw [hxc] at hs hacc
        exact h.named r List.mem_cons_self c hc hs j d hd' hacc hdead
      · rw [if_neg hr] at hc'
        exact h.named r' (List.mem_cons_of_mem _ hr') c' hc' hs j d hd' hacc hdead
    rcases List.mem_cons.mp hin with hjr | hin
    · exact absurd hjr hj
    · exact hin

theorem EarlyCell.tail {c' : OpCell} (h : EarlyCell now (r :: rest) id c c') (hid : id ≠ r.op) :
    EarlyCell now rest id c c' := by
  rcases h with heq | ⟨hd, hin, heq⟩
  · exact Or.inl heq
  · exact Or.inr ⟨hd, (List.mem_cons.mp hin).resolve_left hid, heq⟩

theorem early_skip (h : Related (EarlyCell now (r :: rest)) ops early)
    (hr : ops.get? r.op = none) : Related (EarlyCell now rest) ops early := by
  refine h.mono ?_
  intro j a b ha hcell
  apply hcell.tail
  rintro rfl
  rw [hr] at ha
  simp at ha

theorem early_next (h : Related (EarlyCell now (r :: rest)) ops early) (x : OpCell) :
    Related (EarlyCell now rest) (ops.insert r.op x) (early.insert r.op x) :=
  h.insert_both (fun _ _ _ hj hcell => hcell.tail hj) (Or.inl rfl)

theorem early_nil (h : Related (EarlyCell now []) ops early) : early = ops := by
  apply ext_get?
  intro j
  have hj := h j
  generalize ops.get? j = o at hj ⊢
  generalize early.get? j = o' at hj ⊢
  cases hj with
  | none => rfl
  | some hcell =>
    rcases hcell with heq | ⟨-, hin, -⟩
    · rw [heq]
    · exact absurd hin (by simp [namedBy])

variable {s : Mem} {db : Sqlite}

/-- Where a page reaches one op in flight, the durable store recovers its account's dead
attempts, which keeps it no more than early. -/
theorem early_recoverDead (hconf : Confined now (r :: rest) ops) (hearly : Related (EarlyCell now (r :: rest)) ops early)
    (h : Refines { s with ops := early } db) (hnow : Written now) (hc : ops.get? r.op = some c)
    (hs : c.state = .inFlight) :
    ∃ db' early', db.recoverDead c.account now = .ok db' ∧ Related (EarlyCell now (r :: rest)) ops early' ∧
      Refines { s with ops := early' } db' ∧
      ∀ id, early'.get? id = (early.get? id).map fun d =>
        if deadOf c.account now d then d.recovered now else d := by
  have hdead : ∀ id d, early.get? id = some d → d.isDead now = true → ops.get? id = some d := by
    intro id d hd hdd
    obtain ⟨a, ha, hcell⟩ := hearly.of_some hd
    rcases hcell with heq | ⟨had, -, heq⟩
    · rw [heq]
      exact ha
    · rw [heq] at hdd
      exact absurd (OpCell.isDead_inFlight hdd) (OpCell.recovered_ne (hconf.room id a ha had))
  have hrec : Recoverable early (deadOf c.account now) now := by
    intro id d hd hp
    have hdd : d.isDead now = true := (Bool.and_eq_true _ _ ▸ hp).2
    exact ⟨OpCell.isDead_inFlight hdd, hconf.room id d (hdead id d hd hdd) hdd⟩
  obtain ⟨db', hdb', hrel⟩ := h.recoverDead hnow hrec
  refine ⟨db', _, hdb', ?_, hrel, fun id => get?_mapRows _ _ id⟩
  intro id
  rw [recoverWhere, get?_mapRows]
  have hid := hearly id
  have hd := hdead id
  have hn := hconf.named r List.mem_cons_self c hc hs id
  generalize ops.get? id = o at hid hd hn
  generalize early.get? id = o' at hid hd
  cases hid with
  | none => exact .none
  | @some a d hcell =>
    refine .some ?_
    show EarlyCell now (r :: rest) id a (if deadOf c.account now d then d.recovered now else d)
    by_cases hp : deadOf c.account now d = true
    · have hp' : d.account = c.account ∧ d.isDead now = true := by
        simpa [deadOf] using hp
      have hda : a = d := Option.some.inj (hd d rfl hp'.2)
      rw [if_pos hp, hda]
      exact Or.inr ⟨hp'.2, hn d (hd d rfl hp'.2) hp'.1 hp'.2, rfl⟩
    · rw [if_neg hp]
      exact hcell

/-- The recovery the durable store runs when a page comes to the row under `rid`. -/
def RecoversAt (db : Sqlite) (rid : Nat) (now : UtcDateTime) (db' : Sqlite) : Prop :=
  (∃ row, (db.pendingOp.get? rid).filter (fun row => decide (row.state = .inFlight)) = some row ∧
    db.recoverDead row.account now = .ok db') ∨
  ((db.pendingOp.get? rid).filter (fun row => decide (row.state = .inFlight)) = none ∧ db' = db)

theorem early_found (hconf : Confined now (r :: rest) ops) (hearly : Related (EarlyCell now (r :: rest)) ops early)
    (h : Refines { s with ops := early } db) (hnow : Written now) (hc : ops.get? r.op = some c) :
    ∃ db' early', RecoversAt db (rowid r.op) now db' ∧ Related (EarlyCell now (r :: rest)) ops early' ∧
      Refines { s with ops := early' } db' ∧ early'.get? r.op = some (c.found now) := by
  obtain ⟨d, hd, hcell⟩ := hearly.some_of_some hc
  have hrow : db.pendingOp.get? (rowid r.op) = some (rowOf d) := by
    rw [h.get?]
    exact congrArg (Option.map rowOf) hd
  have hroom := hconf.room r.op c hc
  unfold RecoversAt
  rw [hrow]
  by_cases hs : d.state = .inFlight
  · have hdc : d = c := by
      rcases hcell with heq | ⟨hdead, -, heq⟩
      · exact heq
      · rw [heq] at hs
        exact absurd hs (OpCell.recovered_ne (hroom hdead))
    subst hdc
    obtain ⟨db', early', hdb', hearly', hrel, hget⟩ := early_recoverDead hconf hearly h hnow hc hs
    have hfilter : (some (rowOf d)).filter (fun row => decide (row.state = .inFlight)) = some (rowOf d) := by
      simp [rowOf, hs]
    refine ⟨db', early', Or.inl ⟨_, hfilter, hdb'⟩, hearly', hrel, ?_⟩
    rw [hget, hd]
    simp [OpCell.found, deadOf]
  · have hfilter : (some (rowOf d)).filter (fun row => decide (row.state = .inFlight)) = none := by
      simp [rowOf, hs]
    refine ⟨db, early, Or.inr ⟨hfilter, rfl⟩, hearly, h, ?_⟩
    rw [hd]
    rcases hcell with heq | ⟨hdead, -, heq⟩
    · rw [heq] at hs ⊢
      simp [OpCell.found, OpCell.not_dead_of_ne hs]
    · rw [heq, OpCell.found, if_pos hdead]

/-- A cell once the page has decided about it. -/
def OpCell.settledBy (c : OpCell) (expected : PendingOpState) : OpCell :=
  if c.state = expected then Mem.settleDelivered c else c

theorem reconcileOp_found (hconf : Confined now (r :: rest) ops) (hearly : Related (EarlyCell now (r :: rest)) ops early)
    (h : Refines { s with ops := early } db) (hnow : Written now) (hid : rowid r.op < 9223372036854775808)
    (hc : ops.get? r.op = some c) :
    ∃ db' early', db.reconcileOp (ReconciledOp.rename r) now = .ok (db', decide ((c.found now).state = r.expected)) ∧
      Related (EarlyCell now (r :: rest)) ops early' ∧
      Refines { s with ops := early'.insert r.op ((c.found now).settledBy r.expected) } db' := by
  obtain ⟨db', early', hdb', hearly', hrel, hget⟩ := early_found hconf hearly h hnow hc
  have hI64 : opIdToI64 (ReconciledOp.rename r).op = .ok (rowid r.op) := opIdToI64_rowid hid
  have hrow : db'.pendingOp.get? (rowid r.op) = some (rowOf (c.found now)) := by
    rw [hrel.get?]
    exact congrArg (Option.map rowOf) hget
  have hexp : (ReconciledOp.rename r).expected = r.expected := rfl
  have hstate : (rowOf (c.found now)).state = (c.found now).state := rfl
  have hop : db.reconcileOp (ReconciledOp.rename r) now =
      if (c.found now).state = r.expected then
        .ok (db'.updateState (rowid r.op) fun row =>
          { row with state := .succeeded, leaseExpiry := none }, true)
      else .ok (db', false) := by
    unfold Sqlite.reconcileOp
    rcases hdb' with ⟨row, hfilter, hdead⟩ | ⟨hfilter, rfl⟩
    · simp only [hI64, hfilter, hdead]
      simp only [hrow, Option.any_some, hexp, hstate, decide_eq_true_eq]
    · simp only [hI64, hfilter]
      simp only [hrow, Option.any_some, hexp, hstate, decide_eq_true_eq]
  rw [hop]
  by_cases heq : (c.found now).state = r.expected
  · have hrw : Rewrite (c.found now) (Mem.settleDelivered (c.found now)) := by
      refine ⟨rfl, rfl, fun hl => absurd hl ?_, fun hd => ⟨fun t ht => absurd ht (by simp [Mem.settleDelivered]), hd.due⟩⟩
      simp [OpCell.listed, staysListed, Mem.settleDelivered, PendingOpState.isTerminal]
    rw [if_pos heq, decide_eq_true heq, OpCell.settledBy, if_pos heq]
    exact ⟨_, early', rfl, hearly', hrel.updateState hget hrw rfl⟩
  · rw [if_neg heq, decide_eq_false heq, OpCell.settledBy, if_neg heq]
    refine ⟨db', early', rfl, hearly', ?_⟩
    rw [insert_self hget]
    exact hrel

theorem reconcileLoop_refines (recs : List ReconciledOp) (n : Nat) (hconf : Confined now recs ops)
    (hearly : Related (EarlyCell now recs) ops early)
    (h : Refines { s with ops := early } db) (hnow : Written now)
    (hid : ∀ id ∈ namedBy recs, rowid id < 9223372036854775808) :
    ∃ ops' m db', Mem.reconcileLoop now recs ops n = (ops', .ok m) ∧
      Sqlite.reconcileLoop now (recs.map ReconciledOp.rename) db n = .ok (db', m) ∧
      Refines { s with ops := ops' } db' := by
  induction recs generalizing ops early db n with
  | nil =>
    rw [early_nil hearly] at h
    exact ⟨ops, n, db, rfl, rfl, h⟩
  | cons r rest ih =>
    have hidr : rowid r.op < 9223372036854775808 := hid r.op List.mem_cons_self
    have hidrest : ∀ id ∈ namedBy rest, rowid id < 9223372036854775808 :=
      fun id hin => hid id (List.mem_cons_of_mem _ hin)
    rw [List.map_cons, Sqlite.reconcileLoop, Mem.reconcileLoop]
    cases hc : ops.get? r.op with
    | none =>
      have hearly' : early.get? r.op = none := by
        have hj := hearly r.op
        rw [hc] at hj
        generalize early.get? r.op = o at hj ⊢
        cases hj
        rfl
      have hrow : db.pendingOp.get? (rowid r.op) = none := by
        rw [h.get?]
        exact congrArg (Option.map rowOf) hearly'
      have hop : db.reconcileOp (ReconciledOp.rename r) now = .ok (db, false) := by
        have hI64 : opIdToI64 (ReconciledOp.rename r).op = .ok (rowid r.op) := opIdToI64_rowid hidr
        have hfilter : (db.pendingOp.get? (rowid r.op)).filter (fun row => decide (row.state = .inFlight)) = none := by
          rw [hrow]
          rfl
        unfold Sqlite.reconcileOp
        simp only [hI64, hfilter]
        rw [hrow]
        rfl
      rw [hop]
      exact ih n (hconf.skip hc) (early_skip hearly hc) h hidrest
    | some c =>
      have hroom := hconf.room r.op c hc
      have hmem : c.recoverIfDead now = .ok (c.found now) := by
        unfold OpCell.recoverIfDead OpCell.found
        by_cases hd : c.isDead now = true
        · rw [if_pos hd, if_pos hd]
          exact OpCell.recover_of_ok (hroom hd)
        · rw [if_neg hd, if_neg hd]
      obtain ⟨db', early', hop, hearly', hrel⟩ := reconcileOp_found hconf hearly h hnow hidr hc
      have hnext : Confined now rest (ops.insert r.op ((c.found now).settledBy r.expected)) := by
        apply hconf.next hc
        · unfold OpCell.settledBy
          split
          · exact OpCell.not_dead_of_ne (by simp [Mem.settleDelivered])
          · exact OpCell.found_not_dead hroom
        · unfold OpCell.settledBy
          split
          · intro hs
            exact absurd hs (by simp [Mem.settleDelivered])
          · exact OpCell.found_inFlight hroom
      simp only [hmem, hop]
      unfold OpCell.settledBy at hnext hrel
      by_cases heq : (c.found now).state = r.expected
      · rw [if_pos heq] at hnext hrel ⊢
        rw [decide_eq_true heq]
        exact ih (n + 1) hnext (early_next hearly' _) hrel hidrest
      · rw [if_neg heq] at hnext hrel ⊢
        rw [decide_eq_false heq]
        exact ih n hnext (early_next hearly' _) hrel hidrest

theorem Refines.reconcile (h : Refines s db) (hnow : Written now) (hconf : Confined now recs s.ops)
    (hid : ∀ id ∈ namedBy recs, rowid id < 9223372036854775808) :
    (db.reconcile (recs.map ReconciledOp.rename) now).2 = (s.reconcile recs now).2 ∧
      Refines (s.reconcile recs now).1 (db.reconcile (recs.map ReconciledOp.rename) now).1 := by
  have hearly : Related (EarlyCell now recs) s.ops s.ops :=
    Related.refl (fun _ _ => Or.inl rfl : ∀ id c, EarlyCell now recs id c c) s.ops
  obtain ⟨ops', m, db', hmem, hsql, hrel⟩ := reconcileLoop_refines recs 0 hconf hearly h hnow hid
  unfold Sqlite.reconcile Mem.reconcile
  rw [hmem, hsql]
  exact ⟨rfl, hrel.sweep now⟩

end Reconcile

/-! ## The queue read and the enqueue -/

section Queue

variable {s : Mem} {db : Sqlite} {account : AccountId} {now : UtcDateTime}

theorem view_of_not_listed {c : OpCell} (h : c.listed = false) (now : UtcDateTime) :
    ∃ v, c.view now = .ok v ∧ v.state = c.state := by
  have hs : c.state ≠ .inFlight := by
    intro hs
    rw [OpCell.listed_of_inFlight hs] at h
    simp at h
  unfold OpCell.view
  rw [OpCell.not_dead_of_ne hs]
  exact ⟨_, rfl, rfl⟩

theorem listRows_refines (h : Refines s db) {l : List (PendingOpId × OpCell)} (hl : ∀ r ∈ l, s.ops.get? r.1 = some r.2) :
    Sqlite.listRows db.payload now ((l.map fun r => (r.1 + 1, rowOf r.2)).filter fun r =>
        decide (r.2.account = account) && r.2.outstanding) =
      (Mem.listRows account now l).map (List.map PendingOpRow.rename) := by
  induction l with
  | nil => rfl
  | cons r rest ih =>
    obtain ⟨id, c⟩ := r
    have hc : s.ops.get? id = some c := hl (id, c) List.mem_cons_self
    have hrest := ih fun r hr => hl r (List.mem_cons_of_mem _ hr)
    rw [List.map_cons, List.filter_cons, Mem.listRows]
    by_cases hacc : c.account = account
    · have hacc' : decide ((rowOf c).account = account) = true := decide_eq_true hacc
      simp only [hacc', Bool.true_and, outstanding_rowOf, hacc, ne_eq, not_true_eq_false, if_false]
      cases hlist : c.listed with
      | false =>
        obtain ⟨v, hv, hvs⟩ := view_of_not_listed hlist now
        have hskip : staysListed (some c.op.kind) v.state = false := by
          rw [hvs]
          exact hlist
        simp only [hv, hskip, Bool.false_eq_true, if_false]
        exact hrest
      | true =>
        have hpay : parsePayload (id + 1) (db.payload.get? (id + 1)) = .ok c.op.payload :=
          (congrArg (parsePayload (id + 1)) (h.payload id c hc hlist)).trans (parsePayload_some (h.parsed id c hc))
        have hparse := parseOpRow_rowOf (h.dated id c hc)
        have hkind : (rowOf c).kind = some c.op.kind := rfl
        simp only [if_true, Sqlite.listRows, hparse, view_rowOf, hkind, hpay, hrest]
        cases c.view now with
        | error e => rfl
        | ok v =>
          by_cases hstay : staysListed (some c.op.kind) v.state = true
          · simp only [hstay, if_true]
            cases Mem.listRows account now rest with
            | error e => rfl
            | ok rows => rfl
          · simp only [hstay, if_false, Bool.false_eq_true]
    · have hacc' : decide ((rowOf c).account = account) = false := decide_eq_false hacc
      simp only [hacc', Bool.false_and, Bool.false_eq_true, if_false, ne_eq, hacc, not_false_eq_true, if_true]
      exact hrest

theorem Refines.list (h : Refines s db) :
    db.list account now = (s.list account now).map (List.map PendingOpRow.rename) := by
  unfold Sqlite.list Mem.list
  rw [h.rows]
  exact listRows_refines h fun r hr => (get?_eq_some_iff s.ops).mpr hr

theorem Refines.existing (h : Refines s db) (account : AccountId) (key : IdempotencyKey) :
    db.existing account key = (s.idempotency.lookup (account, key)).map rowid := by
  unfold Sqlite.existing
  rw [h.rows]
  cases hfind : (s.ops.renumber rowOf).rows.find? fun r =>
      decide (r.2.account = account) && decide (r.2.idempotencyKey = key) with
  | none =>
    cases hlook : s.idempotency.lookup (account, key) with
    | none => rfl
    | some id =>
      obtain ⟨c, hc, hacc, hkey⟩ := (h.keyed account key id).mp hlook
      have hmem : (id + 1, rowOf c) ∈ (s.ops.renumber rowOf).rows := by
        rw [← get?_eq_some_iff, get?_renumber, hc]
        rfl
      have hnone := List.find?_eq_none.mp hfind _ hmem
      exact absurd (show (rowOf c).account = account ∧ (rowOf c).idempotencyKey = key from
        ⟨hacc, hkey⟩) (by simpa using hnone)
  | some row =>
    obtain ⟨r, hr, hrow⟩ := List.mem_map.mp (List.mem_of_find?_eq_some hfind)
    have hsat := List.find?_some hfind
    rw [← hrow] at hsat
    have hsat' : r.2.account = account ∧ r.2.op.idempotencyKey = key := by
      rw [Bool.and_eq_true] at hsat
      exact ⟨of_decide_eq_true hsat.1, of_decide_eq_true hsat.2⟩
    have hlook := (h.keyed account key r.1).mpr ⟨r.2, (get?_eq_some_iff s.ops).mpr hr, hsat'.1, hsat'.2⟩
    rw [hlook, ← hrow]
    rfl

theorem Refines.get?_nextOp (h : Refines s db) : s.ops.get? s.nextOp = none := by
  rw [get?_eq_none_iff]
  intro r hr
  have hin : r.1 ∈ s.ops.keys := List.mem_map_of_mem hr
  rw [h.numbered, List.mem_range] at hin
  omega

theorem Refines.enqueue (h : Refines s db) (account : AccountId) {op : PendingOp}
    (hop : ∀ d ∈ op.dependsOn, rowid d < 9223372036854775808) (hparsed : payloadRefused op.payload = none) :
    (db.enqueue account (PendingOp.rename op)).2 = (s.enqueue account op).2.map rowid ∧
      Refines (s.enqueue account op).1 (db.enqueue account (PendingOp.rename op)).1 := by
  have hkey : (PendingOp.rename op).idempotencyKey = op.idempotencyKey := rfl
  unfold Sqlite.enqueue Mem.enqueue
  rw [hkey, h.existing]
  cases hlook : s.idempotency.lookup (account, op.idempotencyKey) with
  | some id => exact ⟨rfl, h⟩
  | none =>
    have hnext : db.pendingOp.nextRowid = rowid s.nextOp := by
      rw [h.rows]
      exact nextRowid_renumber h.numbered rowOf
    have hget : ∀ j, (s.ops.insert s.nextOp (OpCell.queued account op)).get? j =
        if j = s.nextOp then some (OpCell.queued account op) else s.ops.get? j :=
      fun j => get?_insert _ _ _ j
    simp only [Option.map_none, hnext]
    refine ⟨rfl, ?_, ?_, ?_, ?_, ?_, ?_, ?_⟩
    · show db.pendingOp.insert _ _ = _
      rw [h.rows, queuedRow_rename]
      exact (renumber_insert s.ops rowOf s.nextOp _).symm
    · intro j c hc hl
      show (db.payload.insert (rowid s.nextOp) op.payload).get? (rowid j) = _
      rw [hget] at hc
      rw [get?_insert]
      by_cases hj : j = s.nextOp
      · rw [if_pos hj, Option.some.injEq] at hc
        rw [if_pos (congrArg rowid hj), ← hc]
        rfl
      · rw [if_neg hj] at hc
        have hne : rowid j ≠ rowid s.nextOp := fun e => hj (Nat.succ.inj e)
        rw [if_neg hne]
        exact h.payload j c hc hl
    · intro a k j
      show (((account, op.idempotencyKey), s.nextOp) :: s.idempotency).lookup (a, k) = some j ↔ _
      simp only [hget]
      by_cases hk : (a, k) = (account, op.idempotencyKey)
      · -- the new op is the only one under its key
        obtain ⟨rfl, rfl⟩ := Prod.mk.inj hk
        rw [List.lookup_cons_self, Option.some.injEq]
        constructor
        · rintro rfl
          exact ⟨OpCell.queued a op, by rw [if_pos rfl], rfl, rfl⟩
        · rintro ⟨c, hc, hacc, hckey⟩
          by_contra hj
          rw [if_neg fun e => hj e.symm] at hc
          have hother := (h.keyed a op.idempotencyKey j).mpr ⟨c, hc, hacc, hckey⟩
          rw [hlook] at hother
          simp at hother
      · have hb : ((a, k) == (account, op.idempotencyKey)) = false := by simpa using hk
        rw [List.lookup_cons, hb]
        show s.idempotency.lookup (a, k) = some j ↔ _
        rw [h.keyed a k j]
        constructor
        · rintro ⟨c, hc, hacc, hckey⟩
          have hj : j ≠ s.nextOp := by
            rintro rfl
            rw [h.get?_nextOp] at hc
            simp at hc
          exact ⟨c, by rw [if_neg hj]; exact hc, hacc, hckey⟩
        · rintro ⟨c, hc, hacc, hckey⟩
          by_cases hj : j = s.nextOp
          · rw [if_pos hj, Option.some.injEq] at hc
            rw [← hc] at hacc hckey
            exact absurd (Prod.ext hacc.symm hckey.symm) hk
          · rw [if_neg hj] at hc
            exact ⟨c, hc, hacc, hckey⟩
    · show (s.ops.insert s.nextOp _).keys = List.range (s.nextOp + 1)
      rw [keys_insert_append, h.numbered, List.range_succ]
      intro k hk
      rw [h.numbered, List.mem_range] at hk
      exact hk
    · intro j c hc
      rw [hget] at hc
      split at hc
      · rw [Option.some.injEq] at hc
        rw [← hc]
        exact hop
      · exact h.named j c hc
    · intro j c hc
      rw [hget] at hc
      split at hc
      · rw [Option.some.injEq] at hc
        rw [← hc]
        exact OpCell.dated_of_none rfl rfl
      · exact h.dated j c hc
    · intro j c hc
      rw [hget] at hc
      split at hc
      · rw [Option.some.injEq] at hc
        rw [← hc]
        exact hparsed
      · exact h.parsed j c hc

end Queue

end Outbox
end SyncEngine
