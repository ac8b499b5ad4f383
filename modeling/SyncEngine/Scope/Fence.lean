import SyncEngine.Scope.Store

/-!
# The fence on a scope

A worker that claims a scope gets a lease and may write under it until the scope is released or forgotten.  A run is the
order in which the store served the calls, and the workers may be suspended between any two of them.

A row's generation only ever grows, and a claim, a clear and an abandonment each raise it, so a lease that was
superseded is refused from then on.  That rests on the row staying there.  A purge deletes the rows, and a scope claimed
again starts over from the first generation, which a lease from before the purge may carry.  `Careful` keeps out purges
while a worker still holds a lease.
-/

namespace SyncEngine
namespace Scope

open Keyed

variable {ω : Type}

inductive Call (ω : Type)
  | claim (account : AccountId) (scope : SyncScope) (req : LeaseRequest)
  | renew (lease : SyncLease) (ttl : Nat)
  | release (lease : SyncLease)
  | apply (lease : SyncLease) (update : SyncUpdate ω) (derived : DerivedWrite)
      (next : Store.NextState)
  | maintenance (lease : SyncLease) (derived : DerivedWrite)
  | setExpansionWindow (lease : SyncLease) (window : ExpansionWindow)
  | forgetScope (lease : SyncLease)
  | abandonLeases
  | clearOneCursor (scope : SyncScope)
  | clearSyncCursors
  | purgeAccount (account : AccountId)
  | purgeDomain (account : AccountId) (domain : SearchDomain)

inductive Reply
  | claimed (r : Result SyncClaim)
  | applied (r : Result SyncApplied)
  | done (r : Result Unit)
  | counted (n : Nat)

namespace Call

def presents : Call ω → Option SyncLease
  | .renew lease _ | .release lease | .apply lease _ _ _ | .maintenance lease _
  | .setExpansionWindow lease _ | .forgetScope lease => some lease
  | _ => none

/-- The lease a call gives back, whatever the store answers. -/
def consumes : Call ω → Option SyncLease
  | .release lease | .forgetScope lease => some lease
  | _ => none

def writesUnder : Call ω → Option SyncLease
  | .apply lease _ _ _ | .maintenance lease _ | .setExpansionWindow lease _ => some lease
  | _ => none

end Call

/-- Whether the store did what the call asked. -/
def Reply.accepted : Reply → Bool
  | .claimed r => r.isOk
  | .applied r => r.isOk
  | .done r => r.isOk
  | .counted _ => true

def Reply.granted : Reply → List SyncLease
  | .claimed (.ok claim) => [claim.lease]
  | _ => []

theorem granted_unique {r : Reply} {a b : SyncLease} (ha : a ∈ r.granted) (hb : b ∈ r.granted) : a = b := by
  unfold Reply.granted at ha hb
  split at ha
  · rw [List.mem_singleton] at ha hb
    rw [ha, hb]
  · simp at ha

/-- One store call. -/
def Store.run (st : Store ω) (call : Call ω) (now : UtcDateTime) : Store ω × Reply :=
  match call with
  | .claim account scope req =>
    ((st.claim account scope req now).1, .claimed (st.claim account scope req now).2)
  | .renew lease ttl => ((st.renew lease ttl now).1, .done (st.renew lease ttl now).2)
  | .release lease => (st.release lease, .done (.ok ()))
  | .apply lease update derived next =>
    ((st.apply lease update derived next).1, .applied (st.apply lease update derived next).2)
  | .maintenance lease derived =>
    ((st.maintenance lease derived).1, .done (st.maintenance lease derived).2)
  | .setExpansionWindow lease window =>
    ((st.setExpansionWindow lease window).1, .done (st.setExpansionWindow lease window).2)
  | .forgetScope lease => ((st.forgetScope lease).1, .done (st.forgetScope lease).2)
  | .abandonLeases => (st.abandonLeases.1, .counted st.abandonLeases.2)
  | .clearOneCursor scope => (st.clearOneCursor scope, .done (.ok ()))
  | .clearSyncCursors => (st.clearSyncCursors, .done (.ok ()))
  | .purgeAccount account => (st.purgeAccount account, .done (.ok ()))
  | .purgeDomain account domain => (st.purgeDomain account domain, .done (.ok ()))

/-- One call of a run, with the answer it got and the scopes whose row it deleted. -/
structure Entry (ω : Type) where
  call : Call ω
  now : UtcDateTime
  reply : Reply
  purged : List SyncScope

/-- A store together with the leases workers hold. -/
structure System (ω : Type) where
  store : Store ω
  held : List SyncLease

def System.start : System ω := ⟨Store.new, []⟩

def heldAfter (held : List SyncLease) (call : Call ω) (reply : Reply) : List SyncLease :=
  held.filter (fun lease => decide (call.consumes ≠ some lease)) ++ reply.granted

/-- The scopes whose row is gone. -/
def deleted (st st' : Store ω) : List SyncScope :=
  st.syncScope.keys.filter fun scope => (st'.syncScope.get? scope).isNone

structure Step (s : System ω) (e : Entry ω) (s' : System ω) : Prop where
  presented : ∀ lease, e.call.presents = some lease → lease ∈ s.held
  answered : s.store.run e.call e.now = (s'.store, e.reply)
  held : s'.held = heldAfter s.held e.call e.reply
  purged : e.purged = deleted s.store s'.store

/-- What ends the right to write under a lease of `scope` issued before it. -/
def Supersedes (scope : SyncScope) (e : Entry ω) : Prop :=
  match e.call with
  | .claim _ s _ => s = scope ∧ e.reply.accepted = true
  | .abandonLeases | .clearSyncCursors => True
  | .clearOneCursor s => s = scope
  | .forgetScope lease => lease.scope = scope ∧ e.reply.accepted = true
  | .purgeAccount _ | .purgeDomain _ _ => scope ∈ e.purged
  | _ => False

/-- No row is purged while a worker holds a lease on it. -/
def Careful (s : System ω) (e : Entry ω) : Prop :=
  ∀ lease ∈ s.held, lease.scope ∉ e.purged

def CarefulStep (s : System ω) (e : Entry ω) (s' : System ω) : Prop :=
  Step s e s' ∧ Careful s e

/-! ## What one call does to a row -/

/-- The three things a call can do to a row it does not delete. -/
inductive RowStep (call : Call ω) (scope : SyncScope) (row row' : ScopeRow) : Prop
  | kept : row'.token = row.token → (row.leaseExpiry.isSome → row'.leaseExpiry.isSome) →
      RowStep call scope row row'
  | raised : row.token < row'.token → RowStep call scope row row'
  | returned (lease : SyncLease) : call.consumes = some lease → lease.scope = scope →
      lease.token = row.token → row'.token = row.token → RowStep call scope row row'

theorem RowStep.token_le {call : Call ω} {scope : SyncScope} {row row' : ScopeRow}
    (h : RowStep call scope row row') : row.token ≤ row'.token := by
  cases h with
  | kept htok _ => omega
  | raised htok => omega
  | returned lease _ _ _ htok => omega

section Rows

variable {st : Store ω} {scope : SyncScope} {row : ScopeRow} {now : UtcDateTime}

theorem isCurrent_iff {token : Nat} : st.isCurrent scope token = true ↔
    ∃ row, st.syncScope.get? scope = some row ∧ row.token = token := by
  unfold Store.isCurrent
  cases st.syncScope.get? scope with
  | none => simp
  | some row => simp

theorem syncScope_applyDerived (st : Store ω) (scope : SyncScope) (derived : DerivedWrite) :
    (st.applyDerived scope derived).syncScope = st.syncScope := by
  have hdelete : ∀ (keys : List ProviderKey) (st : Store ω),
      (keys.foldl (fun st key => st.deleteOccurrences scope key) st).syncScope = st.syncScope := by
    intro keys
    induction keys with
    | nil => exact fun st => rfl
    | cons key rest ih => exact fun st => ih (st.deleteOccurrences scope key)
  have hput : ∀ (occs : List OccurrenceRow) (st : Store ω),
      (occs.foldl (fun st occ => st.putOccurrence scope occ) st).syncScope = st.syncScope := by
    intro occs
    induction occs with
    | nil => exact fun st => rfl
    | cons occ rest ih => exact fun st => ih (st.putOccurrence scope occ)
  unfold Store.applyDerived
  simp only [hput, hdelete]

theorem syncScope_upsertAll (objects : List (ProviderKey × ω)) (st : Store ω) (scope : SyncScope) :
    (st.upsertAll scope objects).syncScope = st.syncScope := by
  induction objects generalizing st with
  | nil => rfl
  | cons o rest ih => exact ih (st.upsertObject scope o.1 o.2)

theorem syncScope_tombstoneAll (keys : List ProviderKey) (st : Store ω) (scope : SyncScope) :
    (st.tombstoneAll scope keys).syncScope = st.syncScope := by
  induction keys generalizing st with
  | nil => rfl
  | cons key rest ih => exact ih (st.tombstone scope key)

theorem syncScope_applyUpdate (st : Store ω) (scope : SyncScope) (update : SyncUpdate ω) :
    (st.applyUpdate scope update).1.syncScope = st.syncScope := by
  cases update with
  | delta changed removed =>
    exact (syncScope_tombstoneAll _ _ _).trans (syncScope_upsertAll _ _ _)
  | snapshot objects present =>
    exact (syncScope_tombstoneAll _ _ _).trans (syncScope_upsertAll _ _ _)

variable {call : Call ω} {target : SyncScope}

theorem rowStep_modify {f : ScopeRow → ScopeRow} (hrow : st.syncScope.get? scope = some row)
    (hf : target = scope → RowStep call scope row (f row)) :
    ∃ row', (st.syncScope.modify target f).get? scope = some row' ∧ RowStep call scope row row' := by
  rw [get?_modify, hrow]
  by_cases hk : scope = target
  · rw [if_pos hk]
    exact ⟨f row, rfl, hf hk.symm⟩
  · rw [if_neg hk]
    exact ⟨row, rfl, .kept rfl id⟩

theorem rowStep_apply {lease : SyncLease} {update : SyncUpdate ω} {derived : DerivedWrite} {next : Store.NextState}
    (hrow : st.syncScope.get? scope = some row) :
    ∃ row', (st.apply lease update derived next).1.syncScope.get? scope = some row' ∧ RowStep call scope row row' := by
  unfold Store.apply
  split
  · have hcontents : ((st.applyUpdate lease.scope update).1.applyDerived lease.scope derived).syncScope = st.syncScope :=
      (syncScope_applyDerived _ _ _).trans (syncScope_applyUpdate st lease.scope update)
    cases next with
    | none =>
      show ∃ row', ((st.applyUpdate lease.scope update).1.applyDerived lease.scope
        derived).syncScope.get? scope = some row' ∧ _
      rw [hcontents]
      exact ⟨row, hrow, .kept rfl id⟩
    | some cursor =>
      show ∃ row', (((st.applyUpdate lease.scope update).1.applyDerived lease.scope
        derived).syncScope.modify lease.scope _).get? scope = some row' ∧ _
      rw [hcontents]
      exact rowStep_modify hrow fun _ => .kept rfl id
  · exact ⟨row, hrow, .kept rfl id⟩

/-- The row a claim of `scope` decides on. -/
def claimedRow (st : Store ω) (account : AccountId) (scope : SyncScope) : ScopeRow :=
  (st.syncScope.get? scope).getD (ScopeRow.unclaimed account)

theorem claim_cases (st : Store ω) (account : AccountId) (scope : SyncScope) (req : LeaseRequest) (now : UtcDateTime) :
    (∃ e, st.claim account scope req now = (st, .error e)) ∨
    ∃ expiry, isLive (claimedRow st account scope).leaseExpiry now = false ∧ st.claim account scope req now = ({ st with
            syncScope := st.syncScope.put scope { claimedRow st account scope with
                token := (claimedRow st account scope).token + 1, leaseExpiry := some expiry } },
          .ok ⟨⟨account, scope, (claimedRow st account scope).token + 1, req.owner, expiry⟩,
            (claimedRow st account scope).cursor⟩) := by
  unfold Store.claim claimedRow
  cases expiryAfter now req.ttl with
  | error e => exact Or.inl ⟨e, rfl⟩
  | ok expiry =>
    by_cases hlive : isLive ((st.syncScope.get? scope).getD (ScopeRow.unclaimed account)).leaseExpiry now = true
    · simp only [hlive, if_true]
      exact Or.inl ⟨_, rfl⟩
    · refine Or.inr ⟨expiry, by simpa using hlive, ?_⟩
      simp only [hlive, if_false, Bool.false_eq_true]

theorem rowStep_claim {account : AccountId} {req : LeaseRequest} (hrow : st.syncScope.get? scope = some row) :
    ∃ row', (st.claim account target req now).1.syncScope.get? scope = some row' ∧ RowStep call scope row row' := by
  rcases claim_cases st account target req now with ⟨e, hst⟩ | ⟨expiry, -, hst⟩
  · rw [hst]
    exact ⟨row, hrow, .kept rfl id⟩
  · rw [hst, get?_put]
    by_cases hk : scope = target
    · subst hk
      rw [if_pos rfl, claimedRow, hrow]
      exact ⟨_, rfl, .raised (Nat.lt_succ_self _)⟩
    · rw [if_neg hk]
      exact ⟨row, hrow, .kept rfl id⟩

theorem rowStep_purge (p : SyncScope → Bool) (hrow : st.syncScope.get? scope = some row) :
    (st.purge p).syncScope.get? scope = none ∨
      ∃ row', (st.purge p).syncScope.get? scope = some row' ∧ RowStep call scope row row' := by
  show (st.syncScope.filterRows fun s _ => !p s).get? scope = none ∨
    ∃ row', (st.syncScope.filterRows fun s _ => !p s).get? scope = some row' ∧ _
  rw [get?_filterRows, hrow]
  by_cases hp : p scope = true
  · left
    simp [Option.filter, hp]
  · right
    refine ⟨row, ?_, .kept rfl id⟩
    simp [Option.filter, hp]

/-- Every call leaves a row, rewritten in one of the three ways, or deletes it. -/
theorem run_row (call : Call ω) (now : UtcDateTime) (hrow : st.syncScope.get? scope = some row) :
    (st.run call now).1.syncScope.get? scope = none ∨
      ∃ row', (st.run call now).1.syncScope.get? scope = some row' ∧ RowStep call scope row row' := by
  cases call with
  | claim account target req => exact Or.inr (rowStep_claim hrow)
  | renew lease ttl =>
    refine Or.inr ?_
    show ∃ row', (st.renew lease ttl now).1.syncScope.get? scope = some row' ∧ _
    unfold Store.renew
    split
    · exact ⟨row, hrow, .kept rfl id⟩
    · split
      · exact rowStep_modify hrow fun _ => .kept rfl fun _ => rfl
      · exact ⟨row, hrow, .kept rfl id⟩
  | release lease =>
    refine Or.inr ?_
    show ∃ row', (st.release lease).syncScope.get? scope = some row' ∧ _
    unfold Store.release
    split
    · rename_i hcur
      refine rowStep_modify hrow fun hk => ?_
      obtain ⟨r, hr, htok⟩ := isCurrent_iff.mp hcur
      rw [hk, hrow, Option.some.injEq] at hr
      exact .returned lease rfl hk (hr ▸ htok.symm) rfl
    · exact ⟨row, hrow, .kept rfl id⟩
  | apply lease update derived next => exact Or.inr (rowStep_apply hrow)
  | maintenance lease derived =>
    refine Or.inr ?_
    show ∃ row', (st.maintenance lease derived).1.syncScope.get? scope = some row' ∧ _
    unfold Store.maintenance
    split
    · rw [syncScope_applyDerived]
      exact ⟨row, hrow, .kept rfl id⟩
    · exact ⟨row, hrow, .kept rfl id⟩
  | setExpansionWindow lease window =>
    refine Or.inr ?_
    show ∃ row', (st.setExpansionWindow lease window).1.syncScope.get? scope = some row' ∧ _
    unfold Store.setExpansionWindow
    split
    · exact rowStep_modify hrow fun _ => .kept rfl id
    · exact ⟨row, hrow, .kept rfl id⟩
  | forgetScope lease =>
    refine Or.inr ?_
    show ∃ row', (st.forgetScope lease).1.syncScope.get? scope = some row' ∧ _
    unfold Store.forgetScope
    split
    · rename_i hcur
      refine rowStep_modify hrow fun hk => ?_
      obtain ⟨r, hr, htok⟩ := isCurrent_iff.mp hcur
      rw [hk, hrow, Option.some.injEq] at hr
      exact .returned lease rfl hk (hr ▸ htok.symm) rfl
    · exact ⟨row, hrow, .kept rfl id⟩
  | abandonLeases =>
    refine Or.inr ⟨row.abandoned, ?_, ?_⟩
    · show (st.syncScope.mapRows _).get? scope = _
      rw [get?_mapRows, hrow]
      rfl
    · by_cases hexp : row.leaseExpiry.isSome
      · rw [ScopeRow.abandoned, if_pos hexp]
        exact .raised (Nat.lt_succ_self _)
      · rw [ScopeRow.abandoned, if_neg hexp]
        exact .kept rfl id
  | clearOneCursor target =>
    exact Or.inr (rowStep_modify hrow fun _ => .raised (Nat.lt_succ_self _))
  | clearSyncCursors =>
    refine Or.inr ⟨row.cleared, ?_, .raised (Nat.lt_succ_self _)⟩
    show (st.syncScope.mapRows _).get? scope = _
    rw [get?_mapRows, hrow]
    rfl
  | purgeAccount account => exact rowStep_purge _ hrow
  | purgeDomain account domain => exact rowStep_purge _ hrow

end Rows

/-! ## The fence over runs -/

/-- Every held lease is of a row that is there and no newer than it, the lease of the row's own
generation is on record, and no two held leases share a scope and a generation. -/
structure Fenced (s : System ω) : Prop where
  known : ∀ lease ∈ s.held, ∃ row, s.store.syncScope.get? lease.scope = some row ∧
    lease.token ≤ row.token ∧ (lease.token = row.token → row.leaseExpiry.isSome)
  unique : ∀ a ∈ s.held, ∀ b ∈ s.held, a.scope = b.scope → a.token = b.token → a = b

theorem fenced_start : Fenced (System.start : System ω) := by
  refine ⟨?_, ?_⟩
  · intro lease hl
    exact absurd hl (by simp [System.start])
  · intro a ha
    exact absurd ha (by simp [System.start])

section Steps

variable {s s' : System ω} {e : Entry ω} {lease : SyncLease}

theorem Step.store_eq (h : Step s e s') : s'.store = (s.store.run e.call e.now).1 := by rw [h.answered]

theorem Step.reply_eq (h : Step s e s') : e.reply = (s.store.run e.call e.now).2 := by rw [h.answered]

theorem mem_heldAfter (h : Step s e s') : lease ∈ s'.held ↔
    (lease ∈ s.held ∧ e.call.consumes ≠ some lease) ∨ lease ∈ e.reply.granted := by
  rw [h.held, heldAfter, List.mem_append, List.mem_filter, decide_eq_true_eq]

theorem CarefulStep.row (h : CarefulStep s e s') (hf : Fenced s) (hl : lease ∈ s.held) :
    ∃ row row', s.store.syncScope.get? lease.scope = some row ∧ s'.store.syncScope.get? lease.scope = some row' ∧
      RowStep e.call lease.scope row row' := by
  obtain ⟨row, hrow, -⟩ := hf.known lease hl
  rcases run_row e.call e.now hrow with hgone | ⟨row', hrow', hstep⟩
  · rw [← h.1.store_eq] at hgone
    have hin : lease.scope ∈ e.purged := by
      rw [h.1.purged, deleted, List.mem_filter, hgone]
      exact ⟨(mem_keys_iff _).mpr ⟨row, hrow⟩, rfl⟩
    exact absurd hin (h.2 lease hl)
  · rw [← h.1.store_eq] at hrow'
    exact ⟨row, row', hrow, hrow', hstep⟩

theorem Step.granted (h : Step s e s') (hg : lease ∈ e.reply.granted) :
    (∃ account req, e.call = .claim account lease.scope req) ∧
    ∃ row', s'.store.syncScope.get? lease.scope = some row' ∧ lease.token = row'.token ∧ row'.leaseExpiry.isSome ∧
      ∀ row, s.store.syncScope.get? lease.scope = some row → row.token < lease.token := by
  rw [h.reply_eq] at hg
  rw [h.store_eq]
  cases hcall : e.call with
  | claim account scope req =>
    rw [hcall] at hg
    rcases claim_cases s.store account scope req e.now with ⟨err, hst⟩ | ⟨expiry, -, hst⟩
    · simp [Store.run, hst, Reply.granted] at hg
    · simp only [Store.run, hst, Reply.granted, List.mem_singleton] at hg
      subst hg
      refine ⟨⟨account, req, rfl⟩, ?row, ?hget, ?htok, ?hexp, ?hlt⟩
      case hget =>
        simp only [Store.run, hst]
        rw [get?_put, if_pos rfl]
      case htok => rfl
      case hexp => rfl
      case hlt =>
        intro row hrow
        show row.token < (claimedRow s.store account scope).token + 1
        rw [claimedRow, hrow]
        exact Nat.lt_succ_self _
  | _ => rw [hcall] at hg; simp [Store.run, Reply.granted] at hg

theorem Fenced.step (hf : Fenced s) (h : CarefulStep s e s') : Fenced s' := by
  have hold : ∀ lease ∈ s.held, e.call.consumes ≠ some lease →
      ∃ row', s'.store.syncScope.get? lease.scope = some row' ∧ lease.token ≤ row'.token ∧
        (lease.token = row'.token → row'.leaseExpiry.isSome) := by
    intro lease hl hkeep
    obtain ⟨row, row', hrow, hrow', hstep⟩ := h.row hf hl
    obtain ⟨r, hr, hle, hexp⟩ := hf.known lease hl
    rw [hrow, Option.some.injEq] at hr
    subst hr
    refine ⟨row', hrow', Nat.le_trans hle hstep.token_le, ?_⟩
    intro htok
    cases hstep with
    | kept hsame hlease => exact hlease (hexp (by omega))
    | raised hlt => omega
    | returned other hcons hscope hother hsame =>
      -- the lease given back is the row's own, so this one is older
      have hmem : other ∈ s.held := h.1.presented other (by
        cases hc : e.call <;> simp_all [Call.consumes, Call.presents])
      have heq : lease = other := hf.unique lease hl other hmem hscope.symm (by omega)
      rw [heq] at hkeep
      exact absurd hcons hkeep
  refine ⟨?_, ?_⟩
  · intro lease hl
    rcases (mem_heldAfter h.1).mp hl with ⟨hl, hkeep⟩ | hg
    · exact hold lease hl hkeep
    · obtain ⟨-, row', hrow', htok, hexp, -⟩ := h.1.granted hg
      exact ⟨row', hrow', Nat.le_of_eq htok, fun _ => hexp⟩
  · intro a ha b hb hscope htok
    have hnew : ∀ x y, x ∈ s.held → y ∈ e.reply.granted → x.scope = y.scope → x.token ≠ y.token := by
      intro x y hx hy hxy
      obtain ⟨row, hrow, hle, -⟩ := hf.known x hx
      obtain ⟨-, -, -, -, -, hlt⟩ := h.1.granted hy
      have hrowlt := hlt row (hxy ▸ hrow)
      omega
    rcases (mem_heldAfter h.1).mp ha with ⟨ha', -⟩ | hga
    · rcases (mem_heldAfter h.1).mp hb with ⟨hb', -⟩ | hgb
      · exact hf.unique a ha' b hb' hscope htok
      · exact absurd htok (hnew a b ha' hgb hscope)
    · rcases (mem_heldAfter h.1).mp hb with ⟨hb', -⟩ | hgb
      · exact absurd htok.symm (hnew b a hb' hga hscope.symm)
      · exact granted_unique hga hgb

def Superseded (s : System ω) (lease : SyncLease) : Prop :=
  ∃ row, s.store.syncScope.get? lease.scope = some row ∧ lease.token < row.token

theorem Superseded.step (hs : Superseded s lease) (hf : Fenced s) (h : CarefulStep s e s')
    (hl : lease ∈ s.held) : Superseded s' lease := by
  obtain ⟨row, row', hrow, hrow', hstep⟩ := h.row hf hl
  obtain ⟨r, hr, hlt⟩ := hs
  rw [hrow, Option.some.injEq] at hr
  subst hr
  exact ⟨row', hrow', Nat.lt_of_lt_of_le hlt hstep.token_le⟩

theorem forgetScope_accepted {st : Store ω} {other : SyncLease}
    (h : (Reply.done (st.forgetScope other).2).accepted = true) :
    st.isCurrent other.scope other.token = true := by
  unfold Store.forgetScope at h
  split at h
  · rename_i hcur
    exact hcur
  · exact absurd h (by simp [Reply.accepted, Except.isOk, Except.toBool])

/-- What ends the right to write raises the generation above every lease held before it. -/
theorem superseded_of_supersedes (hf : Fenced s) (h : CarefulStep s e s') (hl : lease ∈ s.held)
    (hkeep : e.call.consumes ≠ some lease) (hsup : Supersedes lease.scope e) :
    Superseded s' lease := by
  obtain ⟨row, hrow, hle, hexp⟩ := hf.known lease hl
  have hstore := h.1.store_eq
  have hreply := h.1.reply_eq
  unfold Supersedes at hsup
  cases hcall : e.call with
  | claim account scope req =>
    rw [hcall] at hsup hstore hreply
    obtain ⟨rfl, hacc⟩ := hsup
    rcases claim_cases s.store account lease.scope req e.now with ⟨err, hst⟩ | ⟨expiry, -, hst⟩
    · rw [hreply] at hacc
      simp [Store.run, hst, Reply.accepted, Except.isOk, Except.toBool] at hacc
    · refine ⟨?row, ?hget, ?hlt⟩
      case hget =>
        rw [hstore]
        simp only [Store.run, hst]
        rw [get?_put, if_pos rfl]
      case hlt =>
        show lease.token < (claimedRow s.store account lease.scope).token + 1
        rw [claimedRow, hrow]
        exact Nat.lt_succ_of_le hle
  | abandonLeases =>
    rw [hcall] at hstore
    have hget : s'.store.syncScope.get? lease.scope = some row.abandoned := by
      rw [hstore]
      show (s.store.syncScope.mapRows _).get? lease.scope = _
      rw [get?_mapRows, hrow]
      rfl
    refine ⟨row.abandoned, hget, ?_⟩
    unfold ScopeRow.abandoned
    by_cases hlease : row.leaseExpiry.isSome
    · rw [if_pos hlease]
      exact Nat.lt_succ_of_le hle
    · rw [if_neg hlease]
      exact Nat.lt_of_le_of_ne hle fun htok => hlease (hexp htok)
  | clearSyncCursors =>
    rw [hcall] at hstore
    refine ⟨row.cleared, ?_, Nat.lt_succ_of_le hle⟩
    rw [hstore]
    show (s.store.syncScope.mapRows _).get? lease.scope = _
    rw [get?_mapRows, hrow]
    rfl
  | clearOneCursor scope =>
    rw [hcall] at hsup hstore
    refine ⟨row.cleared, ?_, Nat.lt_succ_of_le hle⟩
    rw [hstore]
    show (s.store.syncScope.modify scope ScopeRow.cleared).get? lease.scope = _
    rw [get?_modify, if_pos hsup.symm, hrow]
    rfl
  | forgetScope other =>
    rw [hcall] at hsup hkeep
    obtain ⟨hscope, hacc⟩ := hsup
    rw [hreply, hcall] at hacc
    obtain ⟨r, hr, htok⟩ := isCurrent_iff.mp (forgetScope_accepted hacc)
    rw [hscope, hrow, Option.some.injEq] at hr
    subst hr
    have hother : other ∈ s.held := h.1.presented other (by rw [hcall]; rfl)
    have hlt : lease.token < row.token := by
      refine Nat.lt_of_le_of_ne hle fun heq => ?_
      have hsame : lease = other := hf.unique lease hl other hother hscope.symm (by omega)
      rw [hsame] at hkeep
      exact hkeep rfl
    exact Superseded.step ⟨row, hrow, hlt⟩ hf h hl
  | purgeAccount account =>
    rw [hcall] at hsup
    exact absurd hsup (h.2 lease hl)
  | purgeDomain account domain =>
    rw [hcall] at hsup
    exact absurd hsup (h.2 lease hl)
  | renew l ttl => rw [hcall] at hsup; exact hsup.elim
  | release l => rw [hcall] at hsup; exact hsup.elim
  | apply l update derived next => rw [hcall] at hsup; exact hsup.elim
  | maintenance l derived => rw [hcall] at hsup; exact hsup.elim
  | setExpansionWindow l window => rw [hcall] at hsup; exact hsup.elim

end Steps

section Runs

variable {s s' : System ω} {es : List (Entry ω)} {lease : SyncLease}

theorem superseded_of_run (h : Run CarefulStep s es s') (hf : Fenced s) (hl : lease ∈ s.held)
    (hkeep : ∀ e ∈ es, e.call.consumes ≠ some lease)
    (hsup : Superseded s lease ∨ ∃ e ∈ es, Supersedes lease.scope e) : Superseded s' lease := by
  induction h with
  | nil s =>
    rcases hsup with hs | ⟨e, he, -⟩
    · exact hs
    · simp at he
  | @cons s s₁ s₂ e es hstep _ ih =>
    have hkeep₁ := hkeep e List.mem_cons_self
    have hl₁ : lease ∈ s₁.held := (mem_heldAfter hstep.1).mpr (Or.inl ⟨hl, hkeep₁⟩)
    refine ih (hf.step hstep) hl₁ (fun e he => hkeep e (List.mem_cons_of_mem _ he)) ?_
    rcases hsup with hs | ⟨x, hx, hxs⟩
    · exact Or.inl (hs.step hf hstep hl)
    · rcases List.mem_cons.mp hx with rfl | hx
      · exact Or.inl (superseded_of_supersedes hf hstep hl hkeep₁ hxs)
      · exact Or.inr ⟨x, hx, hxs⟩

theorem accepted_current {st : Store ω} {call : Call ω} {now : UtcDateTime}
    (hw : call.writesUnder = some lease) (hacc : (st.run call now).2.accepted = true) :
    st.isCurrent lease.scope lease.token = true := by
  cases call with
  | apply l update derived next =>
    cases hw
    simp only [Store.run, Store.apply] at hacc
    split at hacc
    · rename_i hcur
      exact hcur
    · exact absurd hacc (by simp [Reply.accepted, Except.isOk, Except.toBool])
  | maintenance l derived =>
    cases hw
    simp only [Store.run, Store.maintenance] at hacc
    split at hacc
    · rename_i hcur
      exact hcur
    · exact absurd hacc (by simp [Reply.accepted, Except.isOk, Except.toBool])
  | setExpansionWindow l window =>
    cases hw
    simp only [Store.run, Store.setExpansionWindow] at hacc
    split at hacc
    · rename_i hcur
      exact hcur
    · exact absurd hacc (by simp [Reply.accepted, Except.isOk, Except.toBool])
  | claim _ _ _ => cases hw
  | renew _ _ => cases hw
  | release _ => cases hw
  | forgetScope _ => cases hw
  | abandonLeases => cases hw
  | clearOneCursor _ => cases hw
  | clearSyncCursors => cases hw
  | purgeAccount _ => cases hw
  | purgeDomain _ _ => cases hw

/-- In a run that purges nothing a worker holds a lease on, a write accepted under a lease finds
its scope as the claim that issued it left it: not claimed again, abandoned, cleared,
forgotten or purged. -/
theorem fence_holds {s₀ s₁ s₂ s₃ : System ω} {es₁ es₂ : List (Entry ω)} {granting writing : Entry ω}
    (h₁ : Run CarefulStep System.start es₁ s₀) (hgrant : CarefulStep s₀ granting s₁)
    (hlease : lease ∈ granting.reply.granted) (h₂ : Run CarefulStep s₁ es₂ s₂)
    (hkeep : ∀ e ∈ es₂, e.call.consumes ≠ some lease) (hwrite : CarefulStep s₂ writing s₃)
    (hunder : writing.call.writesUnder = some lease) (hacc : writing.reply.accepted = true) :
    ∀ e ∈ es₂, ¬ Supersedes lease.scope e := by
  intro e he hsup
  have hf₀ : Fenced s₀ := h₁.preserves (fun _ _ _ hf hs => Fenced.step hf hs) fenced_start
  have hl₁ : lease ∈ s₁.held := (mem_heldAfter hgrant.1).mpr (Or.inr hlease)
  obtain ⟨row, hrow, hlt⟩ := superseded_of_run h₂ (hf₀.step hgrant) hl₁ hkeep (Or.inr ⟨e, he, hsup⟩)
  rw [hwrite.1.reply_eq] at hacc
  obtain ⟨r, hr, htok⟩ := isCurrent_iff.mp (accepted_current hunder hacc)
  rw [hrow, Option.some.injEq] at hr
  subst hr
  omega

end Runs

/-! ## A lease from before a purge -/

namespace Sample

def inbox : SyncScope := .imapMailbox "a" "INBOX"

theorem noon_lt : 379409227200000000000 < UtcDateTime.rangeNanos := by decide

theorem expiry_lt : 379409227230000000000 < UtcDateTime.rangeNanos := by decide

def noon : UtcDateTime := ⟨379409227200000000000, noon_lt⟩

def request : LeaseRequest := ⟨"worker", 30 * second⟩

/-- The lease the first claim of a scope grants at noon. -/
def first : SyncLease := ⟨"a", inbox, 1, "worker", ⟨379409227230000000000, expiry_lt⟩⟩

def after (s : System Unit) (call : Call Unit) : System Unit :=
  ⟨(s.store.run call noon).1, heldAfter s.held call (s.store.run call noon).2⟩

def entry (s : System Unit) (call : Call Unit) : Entry Unit :=
  ⟨call, noon, (s.store.run call noon).2, deleted s.store (after s call).store⟩

variable {s : System Unit}

theorem step_after {call : Call Unit} (h : ∀ lease, call.presents = some lease → lease ∈ s.held) :
    Step s (entry s call) (after s call) :=
  ⟨h, rfl, rfl, rfl⟩

def claimInbox : Call Unit := .claim "a" inbox request

def claimSent : Call Unit := .claim "a" (.imapMailbox "a" "Sent") request

def writeInbox : Call Unit := .setExpansionWindow first
  ⟨⟨noon, ⟨379409227230000000000, expiry_lt⟩, by decide⟩, "UTC"⟩

def claimed : System Unit := after System.start claimInbox

def purged : System Unit := after claimed (.purgeAccount "a")

def reclaimed : System Unit := after purged claimInbox

theorem claimInbox_step (s : System Unit) : Step s (entry s claimInbox) (after s claimInbox) :=
  step_after fun _ h => absurd h (by simp [claimInbox, Call.presents])

theorem writeInbox_step (h : first ∈ s.held) : Step s (entry s writeInbox) (after s writeInbox) := by
  refine step_after fun lease hl => ?_
  simp only [writeInbox, Call.presents, Option.some.injEq] at hl
  rw [← hl]
  exact h

end Sample

open Sample in
theorem fence_holds_besideAnother : ¬ Supersedes first.scope (entry claimed claimSent) := by
  have hclaim : CarefulStep System.start (entry System.start claimInbox) claimed := by
    refine ⟨claimInbox_step _, ?_⟩
    intro lease hl
    exact absurd hl (by simp [System.start])
  have hother : CarefulStep claimed (entry claimed claimSent) (Sample.after claimed claimSent) := by
    refine ⟨step_after fun _ h => absurd h (by simp [claimSent, Call.presents]), ?_⟩
    intro lease _ hin
    have hnone : (entry claimed claimSent).purged = [] := by decide
    rw [hnone] at hin
    simp at hin
  have hwrite : CarefulStep (Sample.after claimed claimSent) (entry (Sample.after claimed claimSent) writeInbox)
      (Sample.after (Sample.after claimed claimSent) writeInbox) := by
    refine ⟨writeInbox_step (by decide), ?_⟩
    intro lease _ hin
    have hnone : (entry (Sample.after claimed claimSent) writeInbox).purged = [] := by decide
    rw [hnone] at hin
    simp at hin
  exact fence_holds (.nil _) hclaim (by decide) (.cons hother (.nil _)) (by decide) hwrite rfl (by decide) _
    List.mem_cons_self

open Sample in
/-- A worker suspended across a purge writes under the lease it slept on. -/
theorem fence_defeated : ¬ ∀ (lease : SyncLease) (s₀ s₁ s₂ s₃ : System Unit)
    (es₁ es₂ : List (Entry Unit)) (granting writing : Entry Unit),
    Run Step System.start es₁ s₀ → Step s₀ granting s₁ → lease ∈ granting.reply.granted →
    Run Step s₁ es₂ s₂ → (∀ e ∈ es₂, e.call.consumes ≠ some lease) → Step s₂ writing s₃ →
    writing.call.writesUnder = some lease → writing.reply.accepted = true →
    ∀ e ∈ es₂, ¬ Supersedes lease.scope e := by
  intro h
  have hpurge : Step claimed (entry claimed (.purgeAccount "a")) purged :=
    step_after fun _ hl => absurd hl (by simp [Call.presents])
  have hrun : Run Step claimed [entry claimed (.purgeAccount "a"), entry purged claimInbox] reclaimed :=
    .cons hpurge (.cons (claimInbox_step purged) (.nil _))
  have hnone := h first System.start claimed reclaimed (Sample.after reclaimed writeInbox) [] _
    (entry System.start claimInbox) (entry reclaimed writeInbox) (.nil _) (claimInbox_step _)
    (by decide) hrun (by decide) (writeInbox_step (by decide)) rfl (by decide)
  exact hnone (entry purged claimInbox) (by simp) ⟨rfl, by decide⟩

end Scope
end SyncEngine
