import SyncEngine.Outbox.Renaming

/-!
# Recoveries and claims of the two stores

The reference store recovers by rewriting every cell in one pass; the durable one loads
the rows to recover and rewrites them one by one.  The batch claims walk the ops in id
order, one over the cells as they now are and one over the rows as they were loaded.
-/

namespace SyncEngine
namespace Outbox

open Table

/-! ## Recording and recovering -/

def OpCell.recovered (c : OpCell) (now : UtcDateTime) : OpCell :=
  match c.recover now with
  | .ok c' => c'
  | .error _ => c

variable {c : OpCell}

theorem OpCell.recover_of_ok {now : UtcDateTime}
    (h : ∃ c', c.recover now = .ok c') : c.recover now = .ok (c.recovered now) := by
  obtain ⟨c', hc'⟩ := h
  rw [OpCell.recovered, hc']

/-- The ops with the cells under `ids` recovered. -/
def recoverIds (ops : Ops) (ids : List PendingOpId) (now : UtcDateTime) : Ops :=
  ops.mapRows fun id c => if id ∈ ids then c.recovered now else c

theorem OpCell.listed_of_inFlight (h : c.state = .inFlight) : c.listed = true := by
  simp [OpCell.listed, staysListed, h, PendingOpState.isTerminal]

theorem Sqlite.updateState_update (db : Sqlite) (id : Nat) (f g : OpRow → OpRow) :
    (db.update id f).updateState id g = db.updateState id fun r => g (f r) := by
  unfold Sqlite.updateState Sqlite.update
  simp only [modify_modify]

section Writes

variable {s : Mem} {db : Sqlite} {id : PendingOpId} {c c' : OpCell} {now : UtcDateTime}
  {outcome : PendingOutcome}

theorem Sqlite.record_rowOf (db : Sqlite) (rid : Nat) (hrec : c.record outcome now = .ok c') :
    ∃ f, db.record rid (rowOf c) now outcome = .ok (db.updateState rid f) ∧ f (rowOf c) = rowOf c' := by
  obtain ⟨r, hr, rfl⟩ := OpCell.record_eq_ok.mp hrec
  refine ⟨?f, ?hf, ?hrow⟩
  case hf =>
    unfold Sqlite.record
    rw [recorded_rowOf, hr]
    rfl
  case hrow => rfl

theorem Sqlite.recover_rowOf (db : Sqlite) (rid : Nat) (hrec : c.recover now = .ok c') :
    ∃ f, db.recover rid (rowOf c) now = .ok (db.updateState rid f) ∧ f (rowOf c) = rowOf c' := by
  obtain ⟨d, hd, rfl⟩ := OpCell.recover_eq_ok.mp hrec
  obtain ⟨r, hr, rfl⟩ := OpCell.record_eq_ok.mp hd
  refine ⟨?f, ?hf, ?hrow⟩
  case hf =>
    unfold Sqlite.recover Sqlite.record
    rw [interrupted_rowOf, recorded_rowOf, hr]
    simp only [Except.map, Sqlite.updateState_update]
    rfl
  case hrow => rfl

variable {e : StoreError}

theorem Sqlite.record_rowOf_error (db : Sqlite) (rid : Nat) (hrec : c.record outcome now = .error e) :
    db.record rid (rowOf c) now outcome = .error e := by
  unfold Sqlite.record
  unfold OpCell.record at hrec
  rw [recorded_rowOf]
  cases hr : c.recorded outcome now with
  | error e' =>
    rw [hr] at hrec
    cases hrec
    rfl
  | ok r =>
    rw [hr] at hrec
    cases hrec

theorem Sqlite.recover_rowOf_error (db : Sqlite) (rid : Nat)
    (hrec : c.recover now = .error e) : db.recover rid (rowOf c) now = .error e := by
  unfold Sqlite.recover
  rw [interrupted_rowOf]
  apply Sqlite.record_rowOf_error
  unfold OpCell.recover at hrec
  cases hd : c.record c.interrupted now with
  | error e' =>
    rw [hd] at hrec
    cases hrec
    rfl
  | ok d =>
    rw [hd] at hrec
    cases hrec

namespace Refines

theorem record (h : Refines s db) (hnow : Written now) (hc : s.ops.get? id = some c)
    (hrec : c.record outcome now = .ok c') (hl : c'.listed = true → c.listed = true) :
    ∃ db', db.record (rowid id) (rowOf c) now outcome = .ok db' ∧ Refines { s with ops := s.ops.insert id c' } db' := by
  obtain ⟨hacc, hop, -⟩ := OpCell.record_frame hrec
  obtain ⟨f, hf, hrow⟩ := Sqlite.record_rowOf db (rowid id) hrec
  exact ⟨_, hf, h.updateState hc ⟨hacc, hop, hl, fun _ => OpCell.record_dated hnow hrec⟩ hrow⟩

theorem recover (h : Refines s db) (hnow : Written now) (hc : s.ops.get? id = some c) (hs : c.state = .inFlight)
    (hrec : c.recover now = .ok c') :
    ∃ db', db.recover (rowid id) (rowOf c) now = .ok db' ∧ Refines { s with ops := s.ops.insert id c' } db' := by
  obtain ⟨hacc, hop, -⟩ := OpCell.recover_frame hrec
  obtain ⟨f, hf, hrow⟩ := Sqlite.recover_rowOf db (rowid id) hrec
  exact ⟨_, hf, h.updateState hc ⟨hacc, hop, fun _ => OpCell.listed_of_inFlight hs,
    fun _ => OpCell.recover_dated hnow hrec⟩ hrow⟩

theorem recoverAll {l : List (PendingOpId × OpCell)} (h : Refines s db) (hnow : Written now)
    (hsorted : l.Pairwise fun a b => a.1 < b.1) (hget : ∀ r ∈ l, s.ops.get? r.1 = some r.2)
    (hfly : ∀ r ∈ l, r.2.state = .inFlight) (hroom : ∀ r ∈ l, ∃ c', r.2.recover now = .ok c') :
    ∃ db', Sqlite.recoverAll now (l.map fun r => (r.1 + 1, rowOf r.2)) db = .ok db' ∧
      Refines { s with ops := recoverIds s.ops (l.map Prod.fst) now } db' := by
  induction l generalizing s db with
  | nil =>
    have hid : recoverIds s.ops [] now = s.ops := by
      apply ext_get?
      intro j
      simp [recoverIds]
    refine ⟨db, rfl, ?_⟩
    rw [List.map_nil, hid]
    exact h
  | cons r rest ih =>
    obtain ⟨id, c⟩ := r
    rw [List.pairwise_cons] at hsorted
    have hc : s.ops.get? id = some c := hget (id, c) List.mem_cons_self
    have hrec := OpCell.recover_of_ok (hroom (id, c) List.mem_cons_self)
    obtain ⟨mid, hmid, hrel⟩ := h.recover hnow hc (hfly (id, c) List.mem_cons_self) hrec
    have hnotin : id ∉ rest.map Prod.fst := by
      intro hin
      obtain ⟨r, hr, hrid⟩ := List.mem_map.mp hin
      have hlt := hsorted.1 r hr
      exact Nat.lt_irrefl id (hrid ▸ hlt)
    have hrest : ∀ r ∈ rest, (s.ops.insert id (c.recovered now)).get? r.1 = some r.2 := by
      intro r hr
      have hne : r.1 ≠ id := Nat.ne_of_gt (hsorted.1 r hr)
      rw [get?_insert, if_neg hne]
      exact hget r (List.mem_cons_of_mem _ hr)
    obtain ⟨db', hdb', hrel'⟩ := ih hrel hsorted.2 hrest (fun r hr => hfly r (List.mem_cons_of_mem _ hr))
      (fun r hr => hroom r (List.mem_cons_of_mem _ hr))
    have hops : recoverIds (s.ops.insert id (c.recovered now)) (rest.map Prod.fst) now =
        recoverIds s.ops (id :: rest.map Prod.fst) now := by
      apply ext_get?
      intro j
      simp only [recoverIds, get?_mapRows, get?_insert]
      by_cases hj : j = id
      · simp [hj, hc, hnotin]
      · have hmem : j ∈ id :: rest.map Prod.fst ↔ j ∈ rest.map Prod.fst := by
          rw [List.mem_cons]
          exact or_iff_right hj
        simp only [if_neg hj, hmem]
    refine ⟨db', ?_, ?_⟩
    · rw [List.map_cons, Sqlite.recoverAll]
      have hmid' : db.recover (id + 1) (rowOf c) now = .ok mid := hmid
      rw [hmid']
      exact hdb'
    · rw [List.map_cons, ← hops]
      exact hrel'

end Refines

/-- The ops with every cell `p` selects recovered. -/
def recoverWhere (ops : Ops) (p : OpCell → Bool) (now : UtcDateTime) : Ops :=
  ops.mapRows fun _ c => if p c then c.recovered now else c

theorem recoverWhere_eq (ops : Ops) (p : OpCell → Bool) (now : UtcDateTime) :
    recoverIds ops ((ops.rows.filter fun r => p r.2).map Prod.fst) now = recoverWhere ops p now := by
  apply mapRows_congr
  intro id c hc
  have hiff : id ∈ (ops.rows.filter fun r => p r.2).map Prod.fst ↔ p c = true := by
    simp only [List.mem_map, List.mem_filter, Prod.exists, exists_and_right, exists_eq_right]
    constructor
    · rintro ⟨d, hd, hp⟩
      rw [← get?_eq_some_iff, hc, Option.some.injEq] at hd
      rw [hd]
      exact hp
    · intro hp
      exact ⟨c, (get?_eq_some_iff ops).mp hc, hp⟩
  simp only [hiff]

/-- Every cell a sweep selects is in flight and can be recovered at `now`. -/
def Recoverable (ops : Ops) (p : OpCell → Bool) (now : UtcDateTime) : Prop :=
  ∀ id c, ops.get? id = some c → p c = true →
    c.state = .inFlight ∧ ∃ c', c.recover now = .ok c'

namespace Refines

theorem recoverWhere (h : Refines s db) (hnow : Written now) {p : OpCell → Bool} (hp : Recoverable s.ops p now) :
    ∃ db', Sqlite.recoverAll now ((s.ops.rows.filter fun r => p r.2).map fun r => (r.1 + 1, rowOf r.2)) db = .ok db' ∧
      Refines { s with ops := Outbox.recoverWhere s.ops p now } db' := by
  have hsel : ∀ r ∈ s.ops.rows.filter fun r => p r.2, s.ops.get? r.1 = some r.2 ∧ p r.2 = true := by
    intro r hr
    rw [List.mem_filter] at hr
    exact ⟨(get?_eq_some_iff s.ops).mpr hr.1, hr.2⟩
  obtain ⟨db', hdb', hrel⟩ := h.recoverAll hnow (s.ops.sorted.filter _) (fun r hr => (hsel r hr).1)
    (fun r hr => (hp _ _ (hsel r hr).1 (hsel r hr).2).1)
    (fun r hr => (hp _ _ (hsel r hr).1 (hsel r hr).2).2)
  refine ⟨db', hdb', ?_⟩
  rw [← recoverWhere_eq]
  exact hrel

/-! ## Loading -/

theorem mem_rows (h : Refines s db) {k : Nat} {r : OpRow} (hr : (k, r) ∈ db.pendingOp.rows) :
    ∃ id c, s.ops.get? id = some c ∧ k = rowid id ∧ r = rowOf c := by
  rw [h.rows] at hr
  obtain ⟨⟨id, c⟩, hmem, heq⟩ := List.mem_map.mp hr
  cases heq
  exact ⟨id, c, (get?_eq_some_iff s.ops).mpr hmem, rfl, rfl⟩

theorem parseOpRows (h : Refines s db) {rows : List (Nat × OpRow)} (hrows : ∀ r ∈ rows, r ∈ db.pendingOp.rows) :
    Sqlite.parseOpRows rows = .ok rows := by
  induction rows with
  | nil => rfl
  | cons r rest ih =>
    obtain ⟨k, r⟩ := r
    obtain ⟨id, c, hc, -, rfl⟩ := h.mem_rows (hrows (k, r) List.mem_cons_self)
    rw [Sqlite.parseOpRows, parseOpRow_rowOf (h.dated id c hc), ih fun r hr => hrows r (List.mem_cons_of_mem _ hr)]
    rfl

theorem loadInFlightOps (h : Refines s db) (account : Option AccountId) :
    db.loadInFlightOps account = .ok (db.inFlightRows account) :=
  h.parseOpRows fun _ hr => List.mem_of_mem_filter hr

theorem rowOne (h : Refines s db) (account : AccountId) (id : PendingOpId) :
    db.rowOne account (rowid id) = ((s.ops.get? id).filter fun o => decide (o.account = account)).map rowOf := by
  unfold Sqlite.rowOne
  rw [h.get?]
  cases s.ops.get? id with
  | none => rfl
  | some c =>
    by_cases hacc : c.account = account
    · simp [Option.filter, hacc, rowOf]
    · simp [Option.filter, hacc, rowOf]

theorem loadOneOp (h : Refines s db) (account : AccountId) (id : PendingOpId) : db.loadOneOp account (rowid id) =
    .ok (((s.ops.get? id).filter fun o => decide (o.account = account)).map rowOf) := by
  unfold Sqlite.loadOneOp
  rw [h.rowOne account id]
  cases hc : (s.ops.get? id).filter fun o => decide (o.account = account) with
  | none => rfl
  | some c =>
    have hparse := parseOpRow_rowOf (h.dated id c (Option.filter_eq_some_iff.mp hc).1)
    simp only [Option.map_some, hparse]
    rfl

end Refines

variable {ops : Ops}

theorem tryMap_recover {p : OpCell → Bool} {f : Nat → OpCell → Result OpCell} (hp : Recoverable ops p now)
    (hf : ∀ id c, f id c = if p c then c.recover now else .ok c) :
    ops.tryMap f = (recoverWhere ops p now, .ok ()) := by
  apply tryMap_eq_mapRows
  intro r hr
  have hr' : ops.get? r.1 = some r.2 := (get?_eq_some_iff ops).mpr hr
  rw [hf]
  by_cases hpr : p r.2 = true
  · simp only [hpr, if_true]
    exact OpCell.recover_of_ok (hp _ _ hr' hpr).2
  · simp only [hpr, if_false, Bool.false_eq_true]

/-- The cells whose attempt a claim of `account` finds dead. -/
def deadOf (account : AccountId) (now : UtcDateTime) (c : OpCell) : Bool :=
  decide (c.account = account) && c.isDead now

variable {account : AccountId}

theorem Mem.recoverDead_eq (hp : Recoverable ops (deadOf account now) now) :
    Mem.recoverDead ops account now = (recoverWhere ops (deadOf account now) now, .ok ()) := by
  apply tryMap_recover hp
  intro id c
  unfold deadOf OpCell.recoverIfDead
  by_cases hacc : c.account = account
  · simp [hacc]
  · simp [hacc]

theorem Refines.recoverDead (h : Refines s db) (hnow : Written now) (hp : Recoverable s.ops (deadOf account now) now) :
    ∃ db', db.recoverDead account now = .ok db' ∧
      Refines { s with ops := Outbox.recoverWhere s.ops (deadOf account now) now } db' := by
  obtain ⟨db', hdb', hrel⟩ := h.recoverWhere hnow hp
  refine ⟨db', ?_, hrel⟩
  rw [← hdb', Sqlite.recoverDead, h.loadInFlightOps]
  dsimp only
  rw [Sqlite.inFlightRows, h.rows]
  simp only [renumber, List.filter_map, List.filter_filter]
  congr 2
  apply List.filter_congr
  intro r _
  simp only [Function.comp, deadOf, OpCell.isDead, OpRow.isDead, rowOf, Option.all_some]
  by_cases hs : r.2.state = .inFlight
  · by_cases hacc : r.2.account = account
    · simp [hs, hacc]
    · simp [hs, hacc]
  · simp [hs]

theorem Refines.recoverInterrupted (h : Refines s db) (hnow : Written now)
    (hp : Recoverable s.ops (fun c => decide (c.state = .inFlight)) now) :
    (db.recoverInterrupted now).2 = (s.recoverInterrupted now).2 ∧
      Refines (s.recoverInterrupted now).1 (db.recoverInterrupted now).1 := by
  have hmem : s.ops.tryMap (fun _ cell =>
      if cell.state = .inFlight then cell.recover now else .ok cell) =
        (Outbox.recoverWhere s.ops (fun c => decide (c.state = .inFlight)) now, .ok ()) := by
    apply tryMap_recover hp
    intro id c
    simp
  have hload : db.inFlightRows none = (s.ops.rows.filter fun r => decide (r.2.state = .inFlight)).map
        fun r => (r.1 + 1, rowOf r.2) := by
    rw [Sqlite.inFlightRows, h.rows]
    simp only [renumber, List.filter_map, Option.all_none, Bool.and_true]
    rfl
  obtain ⟨db', hdb', hrel⟩ := h.recoverWhere hnow hp
  have hsql : db.recoverInterrupted now = (db', .ok (db.inFlightRows none).length) := by
    unfold Sqlite.recoverInterrupted
    simp only [h.loadInFlightOps, hload, hdb']
    rfl
  have hmemeq : s.recoverInterrupted now =
      ({ s with ops := Mem.sweep (Outbox.recoverWhere s.ops
        (fun c => decide (c.state = .inFlight)) now) now },
        .ok (s.ops.values.filter fun o => decide (o.state = .inFlight)).length) := by
    unfold Mem.recoverInterrupted
    rw [hmem]
  rw [hsql, hmemeq]
  refine ⟨?_, hrel.sweep now⟩
  show Except.ok _ = Except.ok _
  rw [hload, values, List.filter_map, List.length_map, List.length_map]
  rfl

end Writes

/-! ## Claims -/

section Claims

variable {s : Mem} {db : Sqlite} {id : PendingOpId} {c : OpCell} {account : AccountId}
  {now : UtcDateTime}

theorem Refines.leaseRow (h : Refines s db) (hc : s.ops.get? id = some c)
    (hs : c.state = .pending) (req : LeaseRequest) {expiry : UtcDateTime} (hexpiry : Written expiry) :
    Refines { s with ops := s.ops.insert id (Mem.lease c id req expiry).1 }
      (db.leaseRow (rowid id) (rowOf c) expiry) := by
  have hl : c.listed = true := by simp [OpCell.listed, staysListed, hs, PendingOpState.isTerminal]
  have hdated : c.Dated → (Mem.lease c id req expiry).1.Dated := fun hd =>
    ⟨fun t ht => Option.some.inj ht ▸ hexpiry, hd.due⟩
  have hr : Rewrite c (Mem.lease c id req expiry).1 := ⟨rfl, rfl, fun _ => hl, hdated⟩
  exact h.updateState hc hr rfl

theorem Refines.toPendingOp (h : Refines s db) (hc : s.ops.get? id = some c)
    (hl : c.listed = true) : db.toPendingOp (rowid id) (rowOf c) c.op.kind = .ok (PendingOp.rename c.op) := by
  unfold Sqlite.toPendingOp
  rw [h.payload id c hc hl, parsePayload_some (h.parsed id c hc)]
  rfl

theorem Refines.leasedEnvelope (h : Refines s db) (hc : s.ops.get? id = some c)
    (hs : c.state = .pending) (req : LeaseRequest) {expiry : UtcDateTime} (hexpiry : Written expiry) :
    (db.leaseRow (rowid id) (rowOf c) expiry).toPendingOp (rowid id) (rowOf c) c.op.kind =
      .ok (PendingOp.rename c.op) := by
  have hrel := h.leaseRow hc hs req hexpiry
  have hlease : (Mem.lease c id req expiry).1.listed = true := OpCell.listed_of_inFlight rfl
  have hget : (s.ops.insert id (Mem.lease c id req expiry).1).get? id = some (Mem.lease c id req expiry).1 := by
    rw [get?_insert, if_pos rfl]
  have henv := hrel.toPendingOp hget hlease
  exact henv

theorem opIdToI64_rowid {d : PendingOpId} (hd : rowid d < 9223372036854775808) : opIdToI64 (rowid d) = .ok (rowid d) := by
  unfold opIdToI64
  rw [if_pos hd]

theorem Refines.dependency (h : Refines s db) (account : AccountId) (d : PendingOpId) :
    ((db.rowOne account (rowid d)).any fun r => r.state.isSuccess) =
      ((s.ops.get? d).any fun dep => decide (dep.account = account) && dep.state.isSuccess) := by
  rw [h.rowOne]
  cases s.ops.get? d with
  | none => rfl
  | some c =>
    by_cases hacc : c.account = account
    · simp [Option.filter, hacc, rowOf]
    · simp [Option.filter, hacc]

theorem Refines.dependenciesLoaded (h : Refines s db) (hc : s.ops.get? id = some c) (account : AccountId) :
    Sqlite.dependenciesLoaded (db.accountRows account) (rowOf c).dependsOn = Mem.dependenciesMet s.ops account c := by
  have hlook : ∀ k, (db.accountRows account).lookup k = db.rowOne account k := fun k =>
    get?_filterRows_eq db.pendingOp (fun _ r => decide (r.account = account)) k
  unfold Sqlite.dependenciesLoaded Mem.dependenciesMet
  show (c.op.dependsOn.map rowid).all _ = _
  rw [List.all_map, Bool.eq_iff_iff, List.all_eq_true, List.all_eq_true]
  refine forall₂_congr fun d hd => ?_
  simp only [Function.comp, opIdToI64_rowid (h.named id c hc d hd), hlook]
  rw [h.dependency account d]

theorem Refines.dependenciesMet (h : Refines s db) (account : AccountId) {ds : List PendingOpId}
    (hds : ∀ d ∈ ds, rowid d < 9223372036854775808) :
    db.dependenciesMet account (ds.map rowid) = .ok (ds.all fun d =>
      (s.ops.get? d).any fun dep => decide (dep.account = account) && dep.state.isSuccess) := by
  induction ds with
  | nil => rfl
  | cons d rest ih =>
    rw [List.map_cons, Sqlite.dependenciesMet, opIdToI64_rowid (hds d List.mem_cons_self)]
    simp only [h.dependency, List.all_cons]
    split
    · rename_i hd
      rw [hd, Bool.true_and]
      exact ih fun d hd => hds d (List.mem_cons_of_mem _ hd)
    · rename_i hd
      rw [Bool.not_eq_true] at hd
      rw [hd, Bool.false_and]

theorem dependenciesMet_lease {ops : Ops} (hc : ops.get? id = some c) (hs : c.state = .pending)
    (req : LeaseRequest) (expiry : UtcDateTime) (account : AccountId) (d : OpCell) :
    Mem.dependenciesMet (ops.insert id (Mem.lease c id req expiry).1) account d = Mem.dependenciesMet ops account d := by
  unfold Mem.dependenciesMet
  congr 1
  funext k
  rw [get?_insert]
  by_cases hk : k = id
  · rw [if_pos hk, hk, hc]
    simp [Mem.lease, hs, PendingOpState.isSuccess]
  · rw [if_neg hk]

variable {newly : List ResourceKey}

theorem Sqlite.claimLoop_full {owner : WorkerId} {expiry : UtcDateTime} {limit : Nat}
    {ops rows : List (Nat × OpRow)} {busy : List ResourceKey}
    {result : List LeasedPendingOp} (h : limit ≤ result.length) :
    Sqlite.claimLoop account owner expiry now limit ops busy rows db newly result = .ok (db, result) := by
  cases rows with
  | nil => rfl
  | cons r rest => rw [Sqlite.claimLoop, if_pos h]

/-- What the loops of the two batch claims share on their way: the rows still to visit are as
they were loaded, the dependencies answer as they did at the start, and the same resources
are taken. -/
structure InStep (account : AccountId) (loaded : List (Nat × OpRow)) (cur : Mem) (db : Sqlite)
    (l : List (PendingOpId × OpCell)) (busy newly taken : List ResourceKey) : Prop where
  refines : Refines cur db
  sorted : l.Pairwise fun a b => a.1 < b.1
  rows : ∀ r ∈ l, cur.ops.get? r.1 = some r.2
  deps : ∀ r ∈ l, Sqlite.dependenciesLoaded loaded (rowOf r.2).dependsOn =
    Mem.dependenciesMet cur.ops account r.2
  taken : ∀ k, taken.contains k = (busy.contains k || newly.contains k)

variable {loaded : List (Nat × OpRow)} {cur : Mem} {l : List (PendingOpId × OpCell)}
  {taken : List ResourceKey}

theorem InStep.tail {busy : List ResourceKey} {r : PendingOpId × OpCell}
    (h : InStep account loaded cur db (r :: l) busy newly taken) :
    InStep account loaded cur db l busy newly taken :=
  ⟨h.refines, (List.pairwise_cons.mp h.sorted).2, fun x hx => h.rows x (List.mem_cons_of_mem _ hx),
    fun x hx => h.deps x (List.mem_cons_of_mem _ hx), h.taken⟩

variable (req : LeaseRequest)

theorem InStep.leased {busy : List ResourceKey} {expiry : UtcDateTime} (hexpiry : Written expiry)
    (h : InStep account loaded cur db ((id, c) :: l) busy newly taken) (hs : c.state = .pending) :
    InStep account loaded { cur with ops := cur.ops.insert id (Mem.lease c id req expiry).1 }
      (db.leaseRow (rowid id) (rowOf c) expiry) l busy (c.op.resourceKey :: newly)
      (c.op.resourceKey :: taken) := by
  have hc : cur.ops.get? id = some c := h.rows (id, c) List.mem_cons_self
  have hsorted := List.pairwise_cons.mp h.sorted
  refine ⟨h.refines.leaseRow hc hs req hexpiry, hsorted.2, ?_, ?_, ?_⟩
  · intro r hr
    have hne : r.1 ≠ id := Nat.ne_of_gt (hsorted.1 r hr)
    show (cur.ops.insert id _).get? r.1 = _
    rw [get?_insert, if_neg hne]
    exact h.rows r (List.mem_cons_of_mem _ hr)
  · intro r hr
    show _ = Mem.dependenciesMet (cur.ops.insert id _) account r.2
    rw [dependenciesMet_lease hc hs]
    exact h.deps r (List.mem_cons_of_mem _ hr)
  · intro k
    rw [List.contains_cons, List.contains_cons, h.taken k]
    cases busy.contains k <;> simp

theorem claimLoop_refines {busy : List ResourceKey} {expiry : UtcDateTime} (hexpiry : Written expiry)
    (now : UtcDateTime) (limit : Nat) (result : List LeasedPendingOp)
    (h : InStep account loaded cur db l busy newly taken) :
    ∃ db', Sqlite.claimLoop account req.owner expiry now limit loaded busy
        ((l.map fun r => (r.1 + 1, rowOf r.2)).filter fun r => decide (r.2.account = account))
        db newly (result.map LeasedPendingOp.rename) =
          .ok (db', (Mem.claimLoop account req expiry now limit (l.map Prod.fst) cur.ops taken
            result).2.map LeasedPendingOp.rename) ∧
      Refines { cur with ops := (Mem.claimLoop account req expiry now limit (l.map Prod.fst)
        cur.ops taken result).1 } db' := by
  induction l generalizing cur db newly taken result with
  | nil => exact ⟨db, rfl, h.refines⟩
  | cons r rest ih =>
    obtain ⟨id, c⟩ := r
    by_cases hlim : limit ≤ result.length
    · refine ⟨db, ?_, ?_⟩
      · rw [Sqlite.claimLoop_full (by simpa using hlim), List.map_cons, Mem.claimLoop, if_pos hlim]
      · rw [List.map_cons, Mem.claimLoop, if_pos hlim]
        exact h.refines
    · have hc : cur.ops.get? id = some c := h.rows (id, c) List.mem_cons_self
      have hlim' : ¬ limit ≤ (result.map LeasedPendingOp.rename).length := by simpa using hlim
      have hdeps : Sqlite.dependenciesLoaded loaded (rowOf c).dependsOn =
          Mem.dependenciesMet cur.ops account c := h.deps (id, c) List.mem_cons_self
      have hskip := ih result h.tail
      have hrunnable : Mem.runnable cur.ops account now c = (decide (c.account = account) && (rowOf c).isRunnable now &&
            Sqlite.dependenciesLoaded loaded (rowOf c).dependsOn) := by
        rw [hdeps]
        simp only [Mem.runnable, OpRow.isRunnable, OpRow.isDue, OpCell.isDue, rowOf,
          Option.isSome_some, Bool.true_and, Bool.and_assoc]
        rfl
      have hkey : (rowOf c).resourceKey = c.op.resourceKey := rfl
      rw [List.map_cons, List.map_cons, Mem.claimLoop, if_neg hlim, hc]
      simp only [hrunnable, h.taken]
      by_cases hacc : c.account = account
      · -- both loops see the row
        have hkeep : decide ((rowOf c).account = account) = true := decide_eq_true hacc
        rw [List.filter_cons, if_pos hkeep, Sqlite.claimLoop, if_neg hlim', hkey, decide_eq_true hacc]
        cases hrun : (rowOf c).isRunnable now with
        | false => exact hskip
        | true =>
          cases hd : Sqlite.dependenciesLoaded loaded (rowOf c).dependsOn with
          | false => exact hskip
          | true =>
            cases hb : (busy.contains c.op.resourceKey || newly.contains c.op.resourceKey) with
            | true => exact hskip
            | false =>
              have hs : c.state = .pending := by
                simp only [OpRow.isRunnable, Bool.and_eq_true, decide_eq_true_eq] at hrun
                exact hrun.1.2
              have hstep := ih (result ++ [(Mem.lease c id req expiry).2]) (h.leased req hexpiry hs)
              have henv : (db.leaseRow (id + 1) (rowOf c) expiry).toPendingOp (id + 1) (rowOf c)
                  c.op.kind = .ok (PendingOp.rename c.op) :=
                h.refines.leasedEnvelope hc hs req hexpiry
              have hkind : (rowOf c).kind = some c.op.kind := rfl
              rw [List.map_append] at hstep
              simp only [hkind, henv, Bool.not_true, Bool.false_eq_true, if_false]
              subst hacc
              exact hstep
      · -- the row belongs to another account, which the durable store did not load
        have hdrop : ¬ decide ((rowOf c).account = account) = true := fun hd => hacc (of_decide_eq_true hd)
        rw [List.filter_cons, if_neg hdrop, decide_eq_false hacc]
        exact hskip

theorem Refines.ready (h : Refines s db) (hnow : Written now) (hp : Recoverable s.ops (deadOf account now) now) :
    ∃ ready ops, db.recoverDead account now = .ok ready ∧ Mem.recoverDead s.ops account now = (ops, .ok ()) ∧
      Refines { s with ops := Mem.sweep ops now } ready := by
  obtain ⟨ready, hready, hrel⟩ := h.recoverDead hnow hp
  exact ⟨ready, _, hready, Mem.recoverDead_eq hp, hrel.sweep now⟩

theorem Refines.loadAccountOps (h : Refines s db) (account : AccountId) :
    db.loadAccountOps account = .ok (db.accountRows account) :=
  h.parseOpRows fun _ hr => List.mem_of_mem_filter hr

theorem Refines.accountRows (h : Refines s db) (account : AccountId) :
    db.accountRows account = (s.ops.rows.map fun r => (r.1 + 1, rowOf r.2)).filter
      fun r => decide (r.2.account = account) := by
  unfold Sqlite.accountRows
  rw [h.rows]
  rfl

theorem Refines.busy (h : Refines s db) (account : AccountId) :
    ((db.accountRows account).filter fun r => decide (r.2.state = .inFlight)).map
        (fun r => r.2.resourceKey) = Mem.takenResources s.ops account := by
  rw [h.accountRows]
  unfold Mem.takenResources values
  simp only [List.filter_map, List.filter_filter, List.map_map]
  have hsel : (fun r : Nat × OpCell =>
      ((fun r : Nat × OpRow => decide (r.2.state = .inFlight)) ∘ fun r : Nat × OpCell => (r.1 + 1, rowOf r.2)) r &&
      ((fun r : Nat × OpRow => decide (r.2.account = account)) ∘ fun r : Nat × OpCell => (r.1 + 1, rowOf r.2)) r) =
      (fun o : OpCell => decide (o.account = account) && decide (o.state = .inFlight)) ∘ Prod.snd := by
    funext r
    exact Bool.and_comm _ _
  rw [hsel]
  rfl

theorem InStep.start (h : Refines s db) (account : AccountId) : InStep account (db.accountRows account) s db s.ops.rows
      (((db.accountRows account).filter fun r => decide (r.2.state = .inFlight)).map
        fun r => r.2.resourceKey) [] (Mem.takenResources s.ops account) := by
  refine ⟨h, s.ops.sorted, ?_, ?_, ?_⟩
  · intro r hr
    exact (get?_eq_some_iff s.ops).mpr hr
  · intro r hr
    exact h.dependenciesLoaded ((get?_eq_some_iff s.ops).mpr hr) account
  · intro k
    rw [h.busy account]
    exact (Bool.or_false _).symm

theorem Refines.claimOps (h : Refines s db) (hnow : Written now) (req : LeaseRequest) (limit : Nat)
    (hp : Recoverable s.ops (deadOf account now) now) :
    (db.claim account req limit now).2 = (s.claimOps account req limit now).2.map (List.map LeasedPendingOp.rename) ∧
      Refines (s.claimOps account req limit now).1 (db.claim account req limit now).1 := by
  unfold Sqlite.claim Mem.claimOps
  cases hexp : expiryAfter now req.ttl with
  | error e => exact ⟨rfl, h⟩
  | ok expiry =>
    obtain ⟨ready, ops, hready, hmem, hrel⟩ := h.ready hnow hp
    obtain ⟨db', hdb', hfin⟩ := claimLoop_refines req (written_expiryAfter hnow hexp) now limit []
      (InStep.start hrel account)
    rw [← hrel.accountRows account, List.map_nil] at hdb'
    simp only [hready, hmem, hrel.loadAccountOps account, hdb']
    exact ⟨rfl, hfin⟩

theorem anyLive_of_live {expiries : List (Option UtcDateTime)}
    (h : ∀ expiry ∈ expiries, isLive expiry now = true ∧ ∀ t ∈ expiry, Written t) :
    Sqlite.anyLive now expiries = .ok (!expiries.isEmpty) := by
  cases expiries with
  | nil => rfl
  | cons expiry rest =>
    obtain ⟨hlive, hwritten⟩ := h expiry List.mem_cons_self
    rw [Sqlite.anyLive, parseOptInstant_written hwritten]
    simp [hlive]

theorem Refines.resourceHeld (h : Refines s db) {resource : ResourceKey}
    (hlive : ∀ j r, db.pendingOp.get? j = some r → r.account = account → r.state = .inFlight →
      isLive r.leaseExpiry now = true) :
    db.resourceHeldElsewhere account resource (rowid id) now = .ok (Mem.resourceHeld s.ops account resource id) := by
  unfold Sqlite.resourceHeldElsewhere
  rw [anyLive_of_live]
  · have hsome : ∀ l : List (Nat × OpRow), (!(l.map fun r => r.2.leaseExpiry).isEmpty) = l.any fun _ => true := by
      intro l
      cases l <;> rfl
    rw [hsome, List.any_filter, h.rows]
    unfold Mem.resourceHeld
    simp only [renumber, List.any_map, Bool.and_true]
    refine congrArg Except.ok (congrArg (List.any _) (funext fun r => ?_))
    have hne : decide (rowid r.1 ≠ rowid id) = decide (r.1 ≠ id) := by simp [rowid]
    show (decide (r.2.account = account) && decide (r.2.op.resourceKey = resource) &&
      decide (rowid r.1 ≠ rowid id) && decide (r.2.state = .inFlight)) = _
    rw [hne, Bool.and_comm (_ && _) (decide (r.1 ≠ id)), ← Bool.and_assoc]
  · intro expiry hexpiry
    obtain ⟨⟨k, r⟩, hr, rfl⟩ := List.mem_map.mp hexpiry
    obtain ⟨hmem, hsel⟩ := List.mem_filter.mp hr
    simp only [Bool.and_eq_true, decide_eq_true_eq] at hsel
    obtain ⟨j, c, hc, -, rfl⟩ := h.mem_rows hmem
    exact ⟨hlive k _ ((get?_eq_some_iff _).mpr hmem) hsel.1.1.1 hsel.2, (h.dated j c hc).lease⟩

theorem stateRefusal_pending (h : Mem.stateRefusal now c = none) : c.state = .pending := by
  unfold Mem.stateRefusal at h
  cases hs : c.state with
  | pending => rfl
  | inFlight => simp [hs] at h
  | needsConfirmation => simp [hs] at h
  | succeeded => simp [hs] at h
  | failed => simp [hs] at h
  | cancelled => simp [hs] at h

theorem Refines.claimOne (h : Refines s db) (hnow : Written now) (req : LeaseRequest)
    (hid : rowid id < 9223372036854775808) (hp : Recoverable s.ops (deadOf account now) now) :
    (db.claimOne account (rowid id) req now).2 = (s.claimOne account id req now).2.map PendingOpClaim.rename ∧
      Refines (s.claimOne account id req now).1 (db.claimOne account (rowid id) req now).1 := by
  unfold Sqlite.claimOne Mem.claimOne
  cases hexp : expiryAfter now req.ttl with
  | error e => exact ⟨rfl, h⟩
  | ok expiry =>
    have hexpiry := written_expiryAfter hnow hexp
    obtain ⟨ready, ops, hready, hmem, hrel⟩ := h.ready hnow hp
    have hload := hrel.loadOneOp account id
    simp only [opIdToI64_rowid hid, hmem, Sqlite.claimOneIn, hready]
    cases hc : ((Mem.sweep ops now).get? id).filter fun o => decide (o.account = account) with
    | none =>
      rw [hc] at hload
      simp only [hload]
      exact ⟨rfl, hrel⟩
    | some c =>
      obtain ⟨hget, hacc⟩ := Option.filter_eq_some_iff.mp hc
      rw [hc] at hload
      have hkind : (rowOf c).kind = some c.op.kind := rfl
      have hstate : Sqlite.stateRefusal now (rowOf c) = Mem.stateRefusal now c := rfl
      have hdeps : ready.dependenciesMet account (rowOf c).dependsOn =
          .ok (Mem.dependenciesMet (Mem.sweep ops now) account c) :=
        hrel.dependenciesMet account (hrel.named id c hget)
      have hheld : ready.resourceHeldElsewhere account (rowOf c).resourceKey (rowid id) now =
          .ok (Mem.resourceHeld (Mem.sweep ops now) account c.op.resourceKey id) :=
        hrel.resourceHeld fun j r hr => Sqlite.recoverDead_live hready hr
      simp only [hload, Option.map_some, hkind, hstate, Mem.claimRefusal]
      cases hsr : Mem.stateRefusal now c with
      | some refusal => exact ⟨rfl, hrel⟩
      | none =>
        simp only [hdeps]
        cases hd : Mem.dependenciesMet (Mem.sweep ops now) account c with
        | false => exact ⟨rfl, hrel⟩
        | true =>
          simp only [hheld]
          cases hr : Mem.resourceHeld (Mem.sweep ops now) account c.op.resourceKey id with
          | true => exact ⟨rfl, hrel⟩
          | false =>
            have hs := stateRefusal_pending hsr
            have hacc' : c.account = account := of_decide_eq_true hacc
            subst hacc'
            simp only [hrel.leasedEnvelope hget hs req hexpiry, Bool.false_eq_true, if_false]
            exact ⟨rfl, hrel.leaseRow hget hs req hexpiry⟩

end Claims

end Outbox
end SyncEngine
