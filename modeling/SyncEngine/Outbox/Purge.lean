import SyncEngine.Outbox.SqliteRows

/-!
# Purging an account's outbox

Removing an account, or one domain of it, deletes its ops.  The table hands the next op the id after the largest one
left, and a new row starts at token zero, so an id and a token a worker still holds can come to name another op.

To say which op a lease was issued for, every enqueue gets a birth number here and a worker's handle keeps the birth of
the op it was granted.
-/

namespace SyncEngine
namespace Outbox

namespace Sqlite

/-- Deletes the ops `p` picks, and their payloads with them. -/
def deleteOps (db : Sqlite) (p : OpRow → Bool) : Sqlite where
  pendingOp := db.pendingOp.filterRows fun _ r => !p r
  payload := db.payload.filterRows fun id _ => (db.pendingOp.get? id).any fun r => !p r

def purgeAccount (db : Sqlite) (account : AccountId) : Sqlite :=
  db.deleteOps fun r => decide (r.account = account)

/-- Deletes the account's ops whose kind writes to `domain`.  A row with no kind is kept. -/
def purgeDomain (db : Sqlite) (account : AccountId) (domain : SearchDomain) : Sqlite :=
  db.deleteOps fun r =>
    decide (r.account = account) && r.kind.any fun k => decide (k.domain = domain)

end Sqlite

/-- A lease with the birth of the op it was granted for. -/
structure Handle where
  lease : OpLease
  birth : Nat
deriving DecidableEq

structure PurgeSystem where
  db : Sqlite
  births : Nat
  born : PendingOpId → Nat
  held : List Handle

namespace PurgeSystem

def start : PurgeSystem := ⟨Sqlite.new, 0, fun _ => 0, []⟩

def queued (s : PurgeSystem) (e : Entry) : Option PendingOpId :=
  match e.reply with
  | .enqueued (.ok id) => if (s.db.pendingOp.get? id).isNone then some id else none
  | _ => none

/-- The system a call leaves, with the birth of a new op and the handles granted. -/
def after (s : PurgeSystem) (e : Entry) (db : Sqlite) : PurgeSystem where
  db := db
  births := if (s.queued e).isSome then s.births + 1 else s.births
  born := fun id => if s.queued e = some id then s.births + 1 else s.born id
  held := s.held ++ e.reply.granted.map fun g => ⟨g.lease, s.born g.lease.op⟩

end PurgeSystem

inductive PurgeEvent
  | call (e : Entry) (under : Option Handle)
  | forgetAccount (account : AccountId)
  | forgetAccountDomain (account : AccountId) (domain : SearchDomain)
  | drop (h : Handle)

inductive PurgeStep : PurgeSystem → PurgeEvent → PurgeSystem → Prop
  | call {s : PurgeSystem} {e : Entry} {under : Option Handle} {db : Sqlite} :
      under.map Handle.lease = e.call.presents → (∀ h, under = some h → h ∈ s.held) →
      Sqlite.run s.db e.call e.now = (db, e.reply) →
      PurgeStep s (.call e under) (s.after e db)
  | forgetAccount {s : PurgeSystem} (account : AccountId) :
      PurgeStep s (.forgetAccount account) { s with db := s.db.purgeAccount account }
  | forgetAccountDomain {s : PurgeSystem} (account : AccountId) (domain : SearchDomain) :
      PurgeStep s (.forgetAccountDomain account domain)
        { s with db := s.db.purgeDomain account domain }
  | drop {s : PurgeSystem} (h : Handle) :
      PurgeStep s (.drop h) { s with held := s.held.erase h }

/-- A row at or above the op of every handle still held. -/
def Reaches (db : Sqlite) (h : Handle) : Prop :=
  ∃ id r, db.pendingOp.get? id = some r ∧ h.lease.op ≤ id

/-- A purge is careful when an op survives at or above each op a worker holds a lease on. -/
def Careful (s : PurgeSystem) : PurgeEvent → Prop
  | .forgetAccount account => ∀ h ∈ s.held, Reaches (s.db.purgeAccount account) h
  | .forgetAccountDomain account domain => ∀ h ∈ s.held, Reaches (s.db.purgeDomain account domain) h
  | _ => True

def CarefulStep (s : PurgeSystem) (ev : PurgeEvent) (s' : PurgeSystem) : Prop :=
  PurgeStep s ev s' ∧ Careful s ev

/-- Every handle names the op it was granted for, and its id cannot be handed out again. -/
def Sound (s : PurgeSystem) : Prop :=
  ∀ h ∈ s.held, s.born h.lease.op = h.birth ∧ Reaches s.db h

variable {e : Entry} {db db' : Sqlite}

theorem Sqlite.Acts.reaches {h : Handle} (ha : Sqlite.Acts e db db') (hr : Reaches db h) : Reaches db' h := by
  obtain ⟨mid, hkept, hclaim⟩ := ha
  obtain ⟨id, r, hget, hle⟩ := hr
  obtain ⟨r', hget', -⟩ := Table.Related.some_of_some hkept hget
  rcases hclaim.granted_or_kept id with ⟨l, -, rfl, row, hg⟩ | ⟨-, hkept'⟩
  · exact ⟨l.id, _, hg.after, hle⟩
  · exact ⟨id, r', hkept'.trans hget', hle⟩

theorem Sqlite.Acts.reaches_granted (ha : Sqlite.Acts e db db')
    {g : LeasedPendingOp} (hg : g ∈ e.reply.granted) (birth : Nat) :
    Reaches db' ⟨g.lease, birth⟩ := by
  obtain ⟨mid, -, hclaim⟩ := ha
  obtain ⟨r, hr⟩ := hclaim.granted g hg
  exact ⟨g.id, _, hr.after, Nat.le_of_eq hr.op⟩

variable {s : PurgeSystem}

theorem queued_eq_none (hrun : Sqlite.run s.db e.call e.now = (db, e.reply)) (ha : Sqlite.Acts e s.db db) :
    s.queued e = none := by
  cases hq : s.queued e with
  | none => rfl
  | some id =>
    unfold PurgeSystem.queued at hq
    split at hq
    · rename_i n hreply
      split at hq
      · rename_i hnone
        rw [Option.isNone_iff_eq_none] at hnone
        -- the reply names a row that is in the table, and the call inserted none
        have hrow : ∃ r, db.pendingOp.get? n = some r := by
          obtain ⟨call, now, reply⟩ := e
          simp only at hrun hreply
          subst hreply
          cases call with
          | enqueue account op =>
            simp only [Sqlite.run, Prod.mk.injEq, Reply.enqueued.injEq] at hrun
            obtain ⟨hdb, hr⟩ := hrun
            unfold Sqlite.enqueue at hdb hr
            split at hr
            · rename_i i hex
              rw [hex] at hdb
              simp only [Except.ok.injEq] at hdb hr
              subst hdb hr
              obtain ⟨row, hfind, rfl⟩ := Option.map_eq_some_iff.mp hex
              exact ⟨row.2, (s.db.pendingOp.get?_eq_some_iff).mpr (List.mem_of_find?_eq_some hfind)⟩
            · rename_i hex
              rw [hex] at hdb
              simp only [Except.ok.injEq] at hdb hr
              subst hdb hr
              exact ⟨_, by rw [Table.get?_insert, if_pos rfl]⟩
          | _ =>
            simp only [Sqlite.run, Prod.mk.injEq] at hrun
            exact absurd hrun.2 (by simp)
        obtain ⟨r, hr⟩ := hrow
        obtain ⟨mid, hkept, hclaim⟩ := ha
        have hmid : mid.get? n = some r := by
          rw [← hclaim.kept n (by rw [hreply]; simp [Reply.granted])]
          exact hr
        obtain ⟨r₀, hr₀, -⟩ := Table.Related.of_some hkept hmid
        rw [hnone] at hr₀
        simp at hr₀
      · simp at hq
    · simp at hq

theorem Sound.call (hs : Sound s) (hrun : Sqlite.run s.db e.call e.now = (db, e.reply)) : Sound (s.after e db) := by
  rcases Sqlite.run_cases hrun with ⟨account, op, -, hreply, hops⟩ | ha
  · -- the new id is above every row, so above the op of every handle
    intro h hh
    have hheld : h ∈ s.held := by simpa [PurgeSystem.after, hreply, Reply.granted] using hh
    obtain ⟨hborn, id, r, hget, hle⟩ := hs h hheld
    have hlt : id < s.db.pendingOp.nextRowid := Table.lt_nextRowid ((s.db.pendingOp.get?_eq_some_iff).mp hget)
    have hid : id ≠ s.db.pendingOp.nextRowid := Nat.ne_of_lt hlt
    have hne : s.queued e ≠ some h.lease.op := by
      unfold PurgeSystem.queued
      rw [hreply]
      simp only [Table.get?_nextRowid, Option.isNone_none, if_true]
      intro heq
      have hop : s.db.pendingOp.nextRowid = h.lease.op := Option.some.inj heq
      rw [← hop] at hle
      exact absurd hle (Nat.not_le_of_lt hlt)
    refine ⟨?_, id, r, ?_, hle⟩
    · simpa only [PurgeSystem.after, if_neg hne] using hborn
    · show db.pendingOp.get? id = some r
      rw [hops, Table.get?_insert, if_neg hid]
      exact hget
  · have hq := queued_eq_none hrun ha
    intro h hh
    simp only [PurgeSystem.after, List.mem_append, List.mem_map] at hh
    simp only [PurgeSystem.after, hq]
    rcases hh with hh | ⟨g, hg, rfl⟩
    · obtain ⟨hborn, hreach⟩ := hs h hh
      exact ⟨hborn, ha.reaches hreach⟩
    · exact ⟨rfl, ha.reaches_granted hg _⟩

theorem Sound.step {s' : PurgeSystem} {ev : PurgeEvent} (hs : Sound s) (h : CarefulStep s ev s') : Sound s' := by
  obtain ⟨hstep, hcare⟩ := h
  cases hstep with
  | call _ _ hrun => exact hs.call hrun
  | forgetAccount account => exact fun h hh => ⟨(hs h hh).1, hcare h hh⟩
  | forgetAccountDomain account domain => exact fun h hh => ⟨(hs h hh).1, hcare h hh⟩
  | drop d => exact fun h hh => hs h (List.mem_of_mem_erase hh)

def Accepted (e : Entry) : Prop :=
  ((∃ l outcome, e.call = .mark l outcome) ∨ ∃ l, e.call = .handOver l) ∧ e.reply = .done (.ok ())

variable {l : OpLease}

theorem Sqlite.mark_accepted {outcome : PendingOutcome} {now : UtcDateTime} (h : (db.mark l outcome now).2 = .ok ()) :
    ∃ r, db.pendingOp.get? l.op = some r ∧ r.account = l.account := by
  unfold Sqlite.mark at h
  split at h
  · simp at h
  rename_i id hid
  obtain rfl := Sqlite.opIdToI64_ok hid
  split at h
  · simp at h
  · simp at h
  rename_i r hload
  exact ⟨r, Sqlite.loadOneOp_some hload⟩

theorem Sqlite.handOver_accepted (h : (db.handOver l).2 = .ok ()) :
    ∃ r, db.pendingOp.get? l.op = some r ∧ r.account = l.account := by
  unfold Sqlite.handOver at h
  split at h
  · simp at h
  rename_i id hid
  obtain rfl := Sqlite.opIdToI64_ok hid
  split at h
  · simp at h
  rename_i r hheld
  simp only [Sqlite.held, Option.filter_eq_some_iff, Bool.and_eq_true, decide_eq_true_eq] at hheld
  exact ⟨r, hheld.1, hheld.2.1.1⟩

/-- Where every purge is careful, an accepted report acts on the op its lease was issued
for. -/
theorem accepted_acts_on_own {s s' : PurgeSystem} {evs : List PurgeEvent} {e : Entry} {h : Handle}
    (hrun : Run CarefulStep PurgeSystem.start evs s) (hstep : PurgeStep s (.call e (some h)) s')
    (hacc : Accepted e) :
    s.born h.lease.op = h.birth ∧ ∃ r, s.db.pendingOp.get? h.lease.op = some r ∧ r.account = h.lease.account := by
  have hsound : Sound s := hrun.preserves (fun _ _ _ hs hstep => hs.step hstep)
    (by intro h hh; exact absurd hh (by simp [PurgeSystem.start]))
  cases hstep with
  | call hunder hheld hanswer =>
    refine ⟨(hsound h (hheld h rfl)).1, ?_⟩
    obtain ⟨hcall, hreply⟩ := hacc
    rw [hreply] at hanswer
    rcases hcall with ⟨l, outcome, hcall⟩ | ⟨l, hcall⟩
    · rw [hcall] at hanswer hunder
      simp only [Sqlite.run, Prod.mk.injEq, Reply.done.injEq] at hanswer
      have hl : h.lease = l := Option.some.inj hunder
      rw [hl]
      exact Sqlite.mark_accepted hanswer.2
    · rw [hcall] at hanswer hunder
      simp only [Sqlite.run, Prod.mk.injEq, Reply.done.injEq] at hanswer
      have hl : h.lease = l := Option.some.inj hunder
      rw [hl]
      exact Sqlite.handOver_accepted hanswer.2

namespace Sample

/-- An op of the account is queued and leased. -/
def leasedFirst : List PurgeEvent :=
  [.call ⟨.enqueue "a" edit, noon, .enqueued (.ok 1)⟩ none,
    .call ⟨.claimOps "a" request 5, noon, .leased (.ok [⟨1, edit, lease 1 1⟩])⟩ none]

/-- The account is removed and added again, and another op takes the id. -/
def replaced : List PurgeEvent :=
  [.forgetAccount "a",
    .call ⟨.enqueue "a" send, noon, .enqueued (.ok 1)⟩ none,
    .call ⟨.claimOps "a" request 5, noon, .leased (.ok [⟨1, send, lease 1 1⟩])⟩ none]

/-- The worker of the first op reports its outcome. -/
def reported : PurgeEvent :=
  .call ⟨.mark (lease 1 1) (.succeeded "m1"), noon, .done (.ok ())⟩ (some ⟨lease 1 1, 1⟩)

theorem leasedFirst_run : ∃ s s', Run CarefulStep PurgeSystem.start leasedFirst s ∧ PurgeStep s reported s' := by
  refine ⟨_, _, .cons ⟨.call rfl (by simp) rfl, trivial⟩
    (.cons ⟨.call rfl (by simp) rfl, trivial⟩ (.nil _)), .call rfl ?_ rfl⟩
  intro h hh
  cases hh
  exact List.mem_cons_self

theorem replaced_run : ∃ s s', Run PurgeStep PurgeSystem.start (leasedFirst ++ replaced) s ∧
    PurgeStep s reported s' ∧ s.born 1 = 2 := by
  refine ⟨_, _, .cons (.call rfl (by simp) rfl) (.cons (.call rfl (by simp) rfl)
    (.cons (.forgetAccount "a") (.cons (.call rfl (by simp) rfl)
      (.cons (.call rfl (by simp) rfl) (.nil _))))), .call rfl ?_ rfl, rfl⟩
  intro h hh
  cases hh
  exact List.mem_cons_self

end Sample

open Sample in
theorem accepted_acts_on_own_first : ∃ s, Run CarefulStep PurgeSystem.start leasedFirst s ∧
    s.born 1 = 1 ∧ ∃ r, s.db.pendingOp.get? 1 = some r ∧ r.account = "a" := by
  obtain ⟨s, s', hrun, hstep⟩ := leasedFirst_run
  exact ⟨s, hrun, accepted_acts_on_own hrun hstep ⟨Or.inl ⟨_, _, rfl⟩, rfl⟩⟩

open Sample in
/-- After a purge that leaves no op behind, a worker's report settles an op it never held. -/
theorem accepted_acts_on_another : ¬ ∀ (evs : List PurgeEvent) (s s' : PurgeSystem) (e : Entry)
    (h : Handle), Run PurgeStep PurgeSystem.start evs s → PurgeStep s (.call e (some h)) s' →
    Accepted e → s.born h.lease.op = h.birth := by
  intro hall
  obtain ⟨s, s', hrun, hstep, hborn⟩ := replaced_run
  have hown := hall _ s s' _ _ hrun hstep ⟨Or.inl ⟨_, _, rfl⟩, rfl⟩
  have htwo : (2 : Nat) = 1 := hborn.symm.trans hown
  exact absurd htwo (by decide)

end Outbox
end SyncEngine
