import Mathlib
import SyncEngine.Outbox.Op

/-!
# Grants

What a claim may do is the same for two stores with different rows, and is said here once, of any table whose rows can
be read as queued ops: a claim leases exactly the rows it answers with, each of them waiting, due and with its
dependencies done, no two of them and none in flight sharing a resource.
-/

namespace SyncEngine
namespace Outbox

/-- A row that reads as a queued op. -/
class QueuedRow (α : Type) where
  account : α → AccountId
  resourceKey : α → ResourceKey
  state : α → PendingOpState
  token : α → Nat
  nextAttemptAt : α → Option UtcDateTime
  /-- The row as leasing it until an instant leaves it. -/
  leased : α → UtcDateTime → α
  account_leased : ∀ r t, account (leased r t) = account r
  resourceKey_leased : ∀ r t, resourceKey (leased r t) = resourceKey r
  state_leased : ∀ r t, state (leased r t) = .inFlight
  token_leased : ∀ r t, token (leased r t) = token r + 1

open QueuedRow

variable {α : Type} [QueuedRow α]

/-- The op under `d` has succeeded and is `account`'s. -/
def Done (t : Table α) (account : AccountId) (d : PendingOpId) : Prop :=
  ∃ dep, t.get? d = some dep ∧ QueuedRow.account dep = account ∧ state dep = .succeeded

/-- The op `l` names was leased: what it was in `t`, and what it is in `t'`. -/
structure Granted (now : UtcDateTime) (t t' : Table α) (l : LeasedPendingOp) (r : α) : Prop where
  row : t.get? l.id = some r
  waiting : state r = .pending
  due : ∀ instant, nextAttemptAt r = some instant → instant ≤ now
  dependencies : ∀ d ∈ l.op.dependsOn, Done t (account r) d
  resource : l.op.resourceKey = resourceKey r
  op : l.lease.op = l.id
  ofAccount : l.lease.account = account r
  nextToken : l.lease.token = token r + 1
  after : t'.get? l.id = some (leased r l.lease.expiry)

/-- A claim turned `t` into `t'` by leasing exactly the ops it answers with. -/
structure Claimed (now : UtcDateTime) (t t' : Table α) (ls : List LeasedPendingOp) : Prop where
  distinct : ls.Pairwise fun l l' => l.id ≠ l'.id ∧ l.op.resourceKey ≠ l'.op.resourceKey
  granted : ∀ l ∈ ls, ∃ r, Granted now t t' l r
  kept : ∀ id, (∀ l ∈ ls, l.id ≠ id) → t'.get? id = t.get? id
  free : ∀ l ∈ ls, ∀ id r, t.get? id = some r → account r = l.lease.account →
    state r = .inFlight → resourceKey r ≠ l.op.resourceKey

namespace Claimed

variable {now : UtcDateTime} {t t' : Table α} {ls : List LeasedPendingOp} {l l' : LeasedPendingOp}

theorem nil (t : Table α) : Claimed now t t [] := ⟨List.Pairwise.nil, by simp, fun _ _ => rfl, by simp⟩

theorem apart (h : Claimed now t t' ls) (hl : l ∈ ls) (hl' : l' ∈ ls) (hne : l ≠ l') :
    l.id ≠ l'.id ∧ l.op.resourceKey ≠ l'.op.resourceKey := by
  have hsymm : Std.Symm fun l l' : LeasedPendingOp =>
      l.id ≠ l'.id ∧ l.op.resourceKey ≠ l'.op.resourceKey :=
    ⟨fun _ _ hd => ⟨hd.1.symm, hd.2.symm⟩⟩
  exact h.distinct.forall hl hl' hne

theorem granted_or_kept (h : Claimed now t t' ls) (id : PendingOpId) :
    (∃ l ∈ ls, l.id = id ∧ ∃ r, Granted now t t' l r) ∨ ((∀ l ∈ ls, l.id ≠ id) ∧ t'.get? id = t.get? id) := by
  by_cases hl : ∀ l ∈ ls, l.id ≠ id
  · exact Or.inr ⟨hl, h.kept id hl⟩
  · simp only [not_forall, not_not] at hl
    obtain ⟨l, hmem, hid⟩ := hl
    exact Or.inl ⟨l, hmem, hid, h.granted l hmem⟩

/-- An op a claim has left done was done before: leasing takes ops that had not succeeded. -/
theorem done_before (h : Claimed now t t' ls) {account : AccountId} {d : PendingOpId}
    (hd : Done t' account d) : Done t account d := by
  obtain ⟨dep, hget, hacc, hst⟩ := hd
  rcases h.granted_or_kept d with ⟨l, -, rfl, r, hg⟩ | ⟨-, hkept⟩
  · rw [hg.after, Option.some.injEq] at hget
    rw [← hget, state_leased] at hst
    simp at hst
  · exact ⟨dep, hkept ▸ hget, hacc, hst⟩

theorem done_after (h : Claimed now t t' ls) {account : AccountId} {d : PendingOpId}
    (hd : Done t account d) : Done t' account d := by
  obtain ⟨dep, hget, hacc, hst⟩ := hd
  rcases h.granted_or_kept d with ⟨l, -, rfl, r, hg⟩ | ⟨-, hkept⟩
  · have hrow := hg.row
    rw [hget, Option.some.injEq] at hrow
    rw [hrow, hg.waiting] at hst
    simp at hst
  · exact ⟨dep, hkept ▸ hget, hacc, hst⟩

/-- Leasing one more op keeps a claim a claim.  How the store writes the row back is up to
it: all that counts is what the table then reads. -/
theorem snoc {t'' : Table α} {r : α} (h : Claimed now t t' ls) (hid : ∀ g ∈ ls, g.id ≠ l.id)
    (hg : Granted now t t'' l r) (hother : ∀ j, j ≠ l.id → t''.get? j = t'.get? j)
    (hres : ∀ g ∈ ls, g.op.resourceKey ≠ l.op.resourceKey)
    (hfree : ∀ j q, t.get? j = some q → account q = l.lease.account → state q = .inFlight →
      resourceKey q ≠ l.op.resourceKey) :
    Claimed now t t'' (ls ++ [l]) := by
  refine ⟨?_, ?_, ?_, ?_⟩
  · refine List.pairwise_append.mpr ⟨h.distinct, List.pairwise_singleton _ _, ?_⟩
    intro g hmem g' hmem'
    rw [List.mem_singleton] at hmem'
    subst hmem'
    exact ⟨hid g hmem, hres g hmem⟩
  · intro g hmem
    rcases List.mem_append.mp hmem with hmem | hmem
    · obtain ⟨q, hq⟩ := h.granted g hmem
      exact ⟨q, { hq with after := (hother g.id (hid g hmem)).trans hq.after }⟩
    · rw [List.mem_singleton] at hmem
      subst hmem
      exact ⟨r, hg⟩
  · intro j hj
    have hne : j ≠ l.id := fun e => hj l (by simp) e.symm
    rw [hother j hne]
    exact h.kept j fun g hg => hj g (List.mem_append_left _ hg)
  · intro g hmem
    rcases List.mem_append.mp hmem with hmem | hmem
    · exact h.free g hmem
    · rw [List.mem_singleton] at hmem
      subst hmem
      exact hfree

end Claimed

/-! ## Exclusion -/

def holds (r : α) : Option (AccountId × ResourceKey) :=
  if state r = .inFlight then some (account r, resourceKey r) else none

theorem holds_eq_some {r : α} {k : AccountId × ResourceKey} :
    holds r = some k ↔ state r = .inFlight ∧ (account r, resourceKey r) = k := by
  unfold holds
  split
  · rename_i hs
    simp [hs]
  · rename_i hs
    simp [hs]

theorem Claimed.exclusive {now : UtcDateTime} {t t' : Table α} {ls : List LeasedPendingOp}
    (h : Claimed now t t' ls) (hex : Exclusive holds t) : Exclusive holds t' := by
  refine hex.acquire (fun i k => ∃ l ∈ ls, l.id = i ∧ (l.lease.account, l.op.resourceKey) = k) ?_ ?_ ?_
  · rintro i k ⟨c', hc', hk⟩
    obtain ⟨-, rfl⟩ := holds_eq_some.mp hk
    rcases h.granted_or_kept i with ⟨l, hmem, rfl, r, hg⟩ | ⟨-, hkept⟩
    · rw [hg.after, Option.some.injEq] at hc'
      refine Or.inr ⟨l, hmem, rfl, ?_⟩
      rw [← hc', account_leased, resourceKey_leased, hg.ofAccount, hg.resource]
    · exact Or.inl ⟨c', hkept ▸ hc', hk⟩
  · rintro i k ⟨l, hmem, -, rfl⟩ j ⟨o, ho, hk⟩
    obtain ⟨hs, heq⟩ := holds_eq_some.mp hk
    rw [Prod.mk.injEq] at heq
    exact h.free l hmem j o ho heq.1 hs heq.2
  · rintro i j k ⟨l, hl, rfl, rfl⟩ ⟨l', hl', rfl, heq⟩
    rw [Prod.mk.injEq] at heq
    by_contra hne
    have hne' : l' ≠ l := fun e => hne (by rw [e])
    exact (h.apart hl' hl hne').2 heq.2

theorem exclusive_of_related {R : Nat → α → α → Prop} {t t' : Table α} (hR : ∀ id r r', R id r r' → state r' = .inFlight →
      state r = .inFlight ∧ account r' = account r ∧ resourceKey r' = resourceKey r)
    (h : Table.Related R t t') (hex : Exclusive holds t) : Exclusive holds t' := by
  refine hex.release ?_
  rintro i k ⟨r', hr', hk⟩
  obtain ⟨r, hr, hrel⟩ := h.of_some hr'
  obtain ⟨hs, rfl⟩ := holds_eq_some.mp hk
  obtain ⟨hs', hacc, hres⟩ := hR i r r' hrel hs
  exact ⟨r, hr, holds_eq_some.mpr ⟨hs', by rw [hacc, hres]⟩⟩

theorem exclusive_insert {t : Table α} {id : Nat} {r : α} (hr : state r ≠ .inFlight)
    (hex : Exclusive holds t) : Exclusive holds (t.insert id r) := by
  refine hex.release ?_
  rintro i k ⟨c, hc, hk⟩
  rw [Table.get?_insert] at hc
  split at hc
  · rw [Option.some.injEq] at hc
    obtain ⟨hs, -⟩ := holds_eq_some.mp hk
    rw [← hc] at hs
    exact absurd hs hr
  · exact ⟨c, hc, hk⟩

end Outbox
end SyncEngine
