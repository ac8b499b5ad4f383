import SyncEngine.Content.Blobs

/-!
# Cached content goes with its message

Every cached row names a live message of its account.  A tombstone keeps this: where it deletes the last message
row of a key it deletes what is cached under it.  Two kinds of calls do not: a cache write, which names whatever key
its reader was given, and a forgotten scope or a derived clear, which leaves the caches alone.
-/

namespace SyncEngine
namespace Content

open Keyed

variable {ω : Type}

/-! ## Tables -/

namespace Tables

variable {t : Tables} {account : AccountId} {held : Held} {scope : SyncScope} {key : ProviderKey}
  {p : SyncScope × ProviderKey → Bool}

theorem live_iff : t.live held = true ↔
    ∃ scope row, t.message.get? (scope, held.2) = some row ∧ row.account = held.1 := by
  simp only [live, List.any_eq_true, Bool.and_eq_true, decide_eq_true_eq]
  constructor
  · rintro ⟨⟨⟨scope, key⟩, row⟩, hmem, haccount, hkey⟩
    have hkey' : key = held.2 := hkey
    subst hkey'
    exact ⟨scope, row, t.message.get?_eq_some_iff.mpr hmem, haccount⟩
  · rintro ⟨scope, row, hget, haccount⟩
    exact ⟨((scope, held.2), row), t.message.get?_eq_some_iff.mp hget, haccount, rfl⟩

variable {k : SyncScope × ProviderKey} {row : MessageRow}

theorem get?_strip : (t.strip p).message.get? k = some row ↔ t.message.get? k = some row ∧ p k = false := by
  show (t.message.filterRows fun k _ => !p k).get? k = some row ↔ _
  rw [get?_filterRows, Option.filter_eq_some_iff]
  simp

theorem cached_uncache {q : Held → Bool} : (t.uncache q).cached held = (!q held && t.cached held) := by
  simp only [cached, uncache, get?_filterRows]
  cases q held <;>
    cases t.messageBody.get? held <;> cases t.messageSource.get? held <;>
    cases t.sourceAttachment.get? held <;> simp [Option.filter]

def Owned (accountOf : SyncScope → Option AccountId) (t : Tables) : Prop :=
  ∀ k row, t.message.get? k = some row → accountOf k.1 = some row.account

/-- Every cached row names a live message. -/
def Backed (t : Tables) : Prop := ∀ held, t.cached held = true → t.live held = true

variable {accountOf : SyncScope → Option AccountId}

theorem Owned.strip (h : Owned accountOf t) : Owned accountOf (t.strip p) :=
  fun k row hget => h k row (get?_strip.mp hget).1

theorem Owned.dropCachedContent (h : Owned accountOf t) (a : Option AccountId) :
    Owned accountOf (t.dropCachedContent a key) := by
  unfold Tables.dropCachedContent
  cases a with
  | none => exact h
  | some a =>
    dsimp only
    split
    · exact h
    · exact h

theorem Owned.tombstone (h : Owned accountOf t) (a : Option AccountId) : Owned accountOf (t.tombstone a scope key) :=
  h.strip.dropCachedContent a

theorem live_strip_row (ho : Owned accountOf t) (hlive : t.live held = true) (scope : SyncScope) (key : ProviderKey) :
    (t.strip fun k => decide (k = (scope, key))).live held = true ∨ accountOf scope = some held.1 ∧ held.2 = key := by
  obtain ⟨s, row, hget, haccount⟩ := live_iff.mp hlive
  by_cases hown : (s, held.2) = (scope, key)
  · have hscope : s = scope := congrArg Prod.fst hown
    have howner := ho _ _ hget
    rw [hscope, haccount] at howner
    exact .inr ⟨howner, congrArg Prod.snd hown⟩
  · exact .inl (live_iff.mpr ⟨s, row, get?_strip.mpr ⟨hget, by simpa using hown⟩, haccount⟩)

theorem Backed.tombstone (hb : Backed t) (ho : Owned accountOf t) : Backed (t.tombstone (accountOf scope) scope key) := by
  intro held hcached
  unfold Tables.tombstone dropCachedContent at hcached ⊢
  cases haccount : accountOf scope with
  | none =>
    rw [haccount] at hcached
    rcases live_strip_row ho (hb held hcached) scope key with hlive | ⟨hown, -⟩
    · exact hlive
    · rw [haccount] at hown
      cases hown
  | some a =>
    rw [haccount] at hcached
    dsimp only at hcached ⊢
    by_cases hkept : (t.strip fun k => decide (k = (scope, key))).live (a, key) = true
    · rw [if_pos hkept] at hcached ⊢
      rcases live_strip_row ho (hb held hcached) scope key with hlive | ⟨hown, hkey⟩
      · exact hlive
      · rw [haccount, Option.some.injEq] at hown
        have hheld : held = (a, key) := Prod.ext hown.symm hkey
        rw [hheld]
        exact hkept
    · rw [if_neg hkept] at hcached ⊢
      rw [cached_uncache, Bool.and_eq_true] at hcached
      have hother : held ≠ (a, key) := by simpa using hcached.1
      rcases live_strip_row ho (hb held hcached.2) scope key with hlive | ⟨hown, hkey⟩
      · exact hlive
      · rw [haccount, Option.some.injEq] at hown
        exact absurd (Prod.ext hown.symm hkey) hother

theorem Owned.tombstoneAll (ho : Owned accountOf t) (a : Option AccountId) (keys : List ProviderKey) :
    Owned accountOf (t.tombstoneAll a scope keys) := by
  unfold Tables.tombstoneAll
  induction keys generalizing t with
  | nil => exact ho
  | cons key keys ih => exact ih (ho.tombstone a)

theorem Backed.tombstoneAll (hb : Backed t) (ho : Owned accountOf t) (keys : List ProviderKey) :
    Backed (t.tombstoneAll (accountOf scope) scope keys) := by
  unfold Tables.tombstoneAll
  induction keys generalizing t with
  | nil => exact hb
  | cons key keys ih => exact ih (hb.tombstone ho) (ho.tombstone _)

/-! ## Rows written and rows cleared -/

theorem Owned.upsertMessage (ho : Owned accountOf t) (haccount : accountOf scope = some account) (row : MailRow) :
    Owned accountOf (t.upsertMessage account scope row) := by
  intro k r hget
  have hput : (t.message.put (scope, row.key) ⟨account, row.day⟩).get? k = some r := hget
  rw [get?_put] at hput
  by_cases hk : k = (scope, row.key)
  · rw [if_pos hk, Option.some.injEq] at hput
    rw [hk, ← hput]
    exact haccount
  · rw [if_neg hk] at hput
    exact ho k r hput

theorem live_upsertMessage (ho : Owned accountOf t) (haccount : accountOf scope = some account) (row : MailRow)
    (hlive : t.live held = true) : (t.upsertMessage account scope row).live held = true := by
  obtain ⟨s, r, hget, howner⟩ := live_iff.mp hlive
  by_cases hk : (s, held.2) = (scope, row.key)
  · -- the row written in its place is of the same account
    have hscope : s = scope := congrArg Prod.fst hk
    have hsame := ho _ _ hget
    rw [hscope, haccount, Option.some.injEq] at hsame
    refine live_iff.mpr ⟨s, ⟨account, row.day⟩, ?_, by rw [hsame, howner]⟩
    show (t.message.put (scope, row.key) _).get? (s, held.2) = _
    rw [get?_put, if_pos hk]
  · refine live_iff.mpr ⟨s, r, ?_, howner⟩
    show (t.message.put (scope, row.key) _).get? (s, held.2) = _
    rw [get?_put, if_neg hk]
    exact hget

theorem upsertAll_kept (haccount : accountOf scope = some account) (rows : List MailRow)
    (ho : Owned accountOf t) (hb : Backed t) :
    Owned accountOf (rows.foldl (fun t row => t.upsertMessage account scope row) t) ∧
      Backed (rows.foldl (fun t row => t.upsertMessage account scope row) t) := by
  induction rows generalizing t with
  | nil => exact ⟨ho, hb⟩
  | cons row rows ih =>
    refine ih (ho.upsertMessage haccount row) fun held hcached => ?_
    exact live_upsertMessage ho haccount row (hb held hcached)

/-- Of the rows `p` selects, those with cached content have another row of their key that stays. -/
def spares (t : Tables) (p : SyncScope × ProviderKey → Bool) : Bool :=
  t.message.rows.all fun r =>
    !p r.1 || !t.cached (r.2.account, r.1.2) ||
      t.message.rows.any fun r' =>
        !p r'.1 && decide (r'.2.account = r.2.account) && decide (r'.1.2 = r.1.2)

theorem live_strip (hspares : t.spares p = true) (hcached : t.cached held = true) (hlive : t.live held = true) :
    (t.strip p).live held = true := by
  obtain ⟨scope, row, hget, haccount⟩ := live_iff.mp hlive
  by_cases hp : p (scope, held.2) = true
  · have hrow := List.all_eq_true.mp hspares _ (t.message.get?_eq_some_iff.mp hget)
    simp only [hp, haccount, hcached, Bool.not_true, Bool.false_or, List.any_eq_true, Bool.and_eq_true,
      decide_eq_true_eq, Bool.not_eq_true'] at hrow
    obtain ⟨⟨⟨scope', key'⟩, row'⟩, hmem, ⟨hp', haccount'⟩, hkey⟩ := hrow
    have hkey' : key' = held.2 := hkey
    subst hkey'
    exact live_iff.mpr ⟨scope', row', get?_strip.mpr ⟨t.message.get?_eq_some_iff.mpr hmem, hp'⟩, haccount'⟩
  · exact live_iff.mpr ⟨scope, row, get?_strip.mpr ⟨hget, by simpa using hp⟩, haccount⟩

theorem Backed.strip (hb : Backed t) (hspares : t.spares p = true) : Backed (t.strip p) :=
  fun held hcached => live_strip hspares hcached (hb held hcached)

theorem applyDerived_kept (haccount : accountOf scope = some account) (removed : List ProviderKey)
    (rows : List MailRow) (ho : Owned accountOf t)
    (hb : Backed (t.strip fun k => decide (k.1 = scope) && decide (k.2 ∈ removed))) :
    Owned accountOf (t.applyDerived account scope removed rows) ∧ Backed (t.applyDerived account scope removed rows) :=
  upsertAll_kept haccount rows ho.strip hb

/-! ## An apply's two halves -/

theorem message_tombstone (a : Option AccountId) :
    (t.tombstone a scope key).message = (t.strip fun k => decide (k = (scope, key))).message := by
  unfold Tables.tombstone dropCachedContent
  cases a with
  | none => rfl
  | some a =>
    dsimp only
    split <;> rfl

variable {a : Option AccountId}

theorem cached_of_tombstone (h : (t.tombstone a scope key).cached held = true) : t.cached held = true := by
  unfold Tables.tombstone dropCachedContent at h
  cases a with
  | none => exact h
  | some a =>
    dsimp only at h
    split at h
    · exact h
    · rw [cached_uncache, Bool.and_eq_true] at h
      exact h.2

variable {keys : List ProviderKey}

theorem cached_of_tombstoneAll (h : (t.tombstoneAll a scope keys).cached held = true) : t.cached held = true := by
  unfold Tables.tombstoneAll at h
  induction keys generalizing t with
  | nil => exact h
  | cons key keys ih => exact cached_of_tombstone (ih h)

theorem get?_of_tombstoneAll (h : (t.tombstoneAll a scope keys).message.get? k = some row) :
    t.message.get? k = some row := by
  unfold Tables.tombstoneAll at h
  induction keys generalizing t with
  | nil => exact h
  | cons key keys ih =>
    have hone := ih h
    rw [message_tombstone] at hone
    exact (get?_strip.mp hone).1

theorem get?_tombstoneAll (h : t.message.get? k = some row) (hne : k.1 ≠ scope) :
    (t.tombstoneAll a scope keys).message.get? k = some row := by
  unfold Tables.tombstoneAll
  induction keys generalizing t with
  | nil => exact h
  | cons key keys ih =>
    refine ih ?_
    rw [message_tombstone]
    refine get?_strip.mpr ⟨h, ?_⟩
    simp only [decide_eq_false_iff_not]
    intro hk
    exact hne (congrArg Prod.fst hk)

theorem Backed.strip_tombstoneAll {removed : List ProviderKey}
    (hspares : t.spares (fun k => decide (k.1 = scope) && decide (k.2 ∈ removed)) = true)
    (hb : Backed (t.tombstoneAll (accountOf scope) scope keys)) :
    Backed ((t.tombstoneAll (accountOf scope) scope keys).strip
      fun k => decide (k.1 = scope) && decide (k.2 ∈ removed)) := by
  intro held hcached
  have hbefore : t.cached held = true := cached_of_tombstoneAll hcached
  obtain ⟨s, row, hget, haccount⟩ := live_iff.mp (hb held hcached)
  have hlive : t.live held = true := live_iff.mpr ⟨s, row, get?_of_tombstoneAll hget, haccount⟩
  obtain ⟨s', row', hget', haccount'⟩ := live_iff.mp (live_strip hspares hbefore hlive)
  obtain ⟨hthere, hkept⟩ := get?_strip.mp hget'
  by_cases hs : s = scope
  · by_cases hs' : s' = scope
    · -- both rows are the same row, which is not cleared
      rw [hs'] at hkept
      rw [hs] at hget
      exact live_iff.mpr ⟨scope, row, get?_strip.mpr ⟨hget, hkept⟩, haccount⟩
    · exact live_iff.mpr ⟨s', row', get?_strip.mpr ⟨get?_tombstoneAll hthere hs', hkept⟩, haccount'⟩
  · exact live_iff.mpr ⟨s, row, get?_strip.mpr ⟨hget, by simp [hs]⟩, haccount⟩

end Tables

/-! ## Calls -/

namespace Store

variable {st : Store ω} {now : UtcDateTime}

structure Kept (st : Store ω) : Prop where
  owned : Tables.Owned st.accountOf st.tables
  backed : Tables.Backed st.tables

/-- The message rows a call deletes without a look at what is cached for them. -/
def strips (st : Store ω) : Scope.Call ω → SyncScope × ProviderKey → Bool
  | .apply lease _ derived _ | .maintenance lease derived => fun k =>
    (st.under lease).isSome && (decide (k.1 = lease.scope) && decide (k.2 ∈ derived.removed))
  | .forgetScope lease => fun k => (st.under lease).isSome && decide (k.1 = lease.scope)
  | .purgeDomain account domain => fun k =>
    decide (domain ≠ .mail) && (st.base.ownedBy account k.1 && decide (k.1.domain = some domain))
  | _ => fun _ => false

/-- A cache write names a live message, and a call that deletes message rows without their cached content deletes
none that is the last of a key with cached content. -/
def careful (st : Store ω) : Call ω → Bool
  | .scopes call _ => st.tables.spares (st.strips call)
  | .putMessageSource held _ | .putMessageBody held _ | .setMailHasAttachment held _ => st.tables.live held
  | .prune _ _ | .dropMessageSourcesOver _ _ => true

variable {scope : SyncScope} {row : Scope.ScopeRow}

theorem account_modify {target : SyncScope} {f : Scope.ScopeRow → Scope.ScopeRow}
    {t : Keyed SyncScope Scope.ScopeRow} (hrow : t.get? scope = some row) (hf : ∀ row, (f row).account = row.account) :
    ∃ row', (t.modify target f).get? scope = some row' ∧ row'.account = row.account := by
  rw [get?_modify, hrow]
  by_cases hk : scope = target
  · exact ⟨f row, by simp [hk], hf row⟩
  · exact ⟨row, by simp [hk], rfl⟩

variable {call : Scope.Call ω}

theorem account_run (hrow : st.base.syncScope.get? scope = some row) (haccount : ∀ a, call ≠ .purgeAccount a)
    (hdomain : ∀ a d, call ≠ .purgeDomain a d) (now : UtcDateTime) :
    ∃ row', (st.base.run call now).1.syncScope.get? scope = some row' ∧ row'.account = row.account := by
  cases call with
  | claim account target req =>
    show ∃ row', (st.base.claim account target req now).1.syncScope.get? scope = some row' ∧ _
    rcases Scope.claim_cases st.base account target req now with ⟨e, hst⟩ | ⟨expiry, -, hst⟩
    · rw [hst]
      exact ⟨row, hrow, rfl⟩
    · rw [hst, get?_put]
      by_cases hk : scope = target
      · subst hk
        rw [if_pos rfl, Scope.claimedRow, hrow]
        exact ⟨_, rfl, rfl⟩
      · rw [if_neg hk]
        exact ⟨row, hrow, rfl⟩
  | renew lease ttl =>
    show ∃ row', (st.base.renew lease ttl now).1.syncScope.get? scope = some row' ∧ _
    unfold Scope.Store.renew
    split
    · exact ⟨row, hrow, rfl⟩
    · split
      · exact account_modify hrow fun _ => rfl
      · exact ⟨row, hrow, rfl⟩
  | release lease =>
    show ∃ row', (st.base.release lease).syncScope.get? scope = some row' ∧ _
    unfold Scope.Store.release
    split
    · exact account_modify hrow fun _ => rfl
    · exact ⟨row, hrow, rfl⟩
  | apply lease update derived next =>
    show ∃ row', (st.base.apply lease update derived next).1.syncScope.get? scope = some row' ∧ _
    have hcontents : ((st.base.applyUpdate lease.scope update).1.applyDerived lease.scope
        derived).syncScope = st.base.syncScope :=
      (Scope.syncScope_applyDerived _ _ _).trans (Scope.syncScope_applyUpdate st.base lease.scope update)
    unfold Scope.Store.apply
    split
    · cases next with
      | none => exact ⟨row, (congrArg (fun t => t.get? scope) hcontents).trans hrow, rfl⟩
      | some cursor => exact account_modify ((congrArg (fun t => t.get? scope) hcontents).trans hrow) fun _ => rfl
    · exact ⟨row, hrow, rfl⟩
  | maintenance lease derived =>
    show ∃ row', (st.base.maintenance lease derived).1.syncScope.get? scope = some row' ∧ _
    unfold Scope.Store.maintenance
    split
    · rw [Scope.syncScope_applyDerived]
      exact ⟨row, hrow, rfl⟩
    · exact ⟨row, hrow, rfl⟩
  | setExpansionWindow lease window =>
    show ∃ row', (st.base.setExpansionWindow lease window).1.syncScope.get? scope = some row' ∧ _
    unfold Scope.Store.setExpansionWindow
    split
    · exact account_modify hrow fun _ => rfl
    · exact ⟨row, hrow, rfl⟩
  | forgetScope lease =>
    show ∃ row', (st.base.forgetScope lease).1.syncScope.get? scope = some row' ∧ _
    unfold Scope.Store.forgetScope
    split
    · exact account_modify hrow fun _ => rfl
    · exact ⟨row, hrow, rfl⟩
  | abandonLeases =>
    refine ⟨row.abandoned, ?_, ?_⟩
    · show (st.base.syncScope.mapRows _).get? scope = _
      rw [get?_mapRows, hrow]
      rfl
    · unfold Scope.ScopeRow.abandoned
      split <;> rfl
  | clearOneCursor target => exact account_modify hrow fun _ => rfl
  | clearSyncCursors =>
    refine ⟨row.cleared, ?_, rfl⟩
    show (st.base.syncScope.mapRows _).get? scope = _
    rw [get?_mapRows, hrow]
    rfl
  | purgeAccount account => exact absurd rfl (haccount account)
  | purgeDomain account domain => exact absurd rfl (hdomain account domain)

variable {account : AccountId}

theorem accountOf_eq_some : st.accountOf scope = some account ↔
    ∃ row, st.base.syncScope.get? scope = some row ∧ row.account = account := Option.map_eq_some_iff

variable {t : Tables}

theorem owned_purge {p : SyncScope → Bool} (ho : Tables.Owned st.accountOf t)
    (hp : ∀ k row, t.message.get? k = some row → p k.1 = false) :
    Tables.Owned (Store.accountOf ⟨st.base.purge p, t⟩) t := by
  intro k row hget
  obtain ⟨r, hr, haccount⟩ := accountOf_eq_some.mp (ho k row hget)
  refine accountOf_eq_some.mpr ⟨r, ?_, haccount⟩
  show (st.base.syncScope.filterRows fun s _ => !p s).get? k.1 = some r
  rw [get?_filterRows, hr]
  simp [Option.filter, hp k row hget]

theorem ownedBy_eq_false {other : AccountId}
    (h : st.accountOf scope = some other) (hne : other ≠ account) : st.base.ownedBy account scope = false := by
  obtain ⟨row, hrow, rfl⟩ := accountOf_eq_some.mp h
  simp [Scope.Store.ownedBy, hrow, hne]

theorem backed_purge {p : SyncScope × ProviderKey → Bool} (hk : Kept st)
    (hp : ∀ k, st.base.ownedBy account k.1 = false → p k = false) :
    Tables.Backed ((st.tables.strip p).uncache fun held => decide (held.1 = account)) := by
  intro held hcached
  rw [Tables.cached_uncache, Bool.and_eq_true] at hcached
  have hother : held.1 ≠ account := by simpa using hcached.1
  obtain ⟨scope, row, hget, haccount⟩ := Tables.live_iff.mp (hk.backed held hcached.2)
  have howner := hk.owned _ _ hget
  rw [haccount] at howner
  exact Tables.live_iff.mpr ⟨scope, row, Tables.get?_strip.mpr ⟨hget, hp _ (ownedBy_eq_false howner hother)⟩, haccount⟩

theorem accountOf_of_under {lease : SyncLease} (h : st.under lease = some account) :
    st.accountOf lease.scope = some account := by
  unfold under at h
  split at h
  · exact h
  · cases h

theorem scopesTables_kept (hk : Kept st) (rows : List MailRow) (hspares : st.tables.spares (st.strips call) = true) :
    Tables.Owned st.accountOf (st.scopesTables rows call) ∧ Tables.Backed (st.scopesTables rows call) := by
  cases call with
  | apply lease update derived next =>
    simp only [scopesTables]
    cases hunder : st.under lease with
    | none => exact ⟨hk.owned, hk.backed⟩
    | some account =>
      have haccount := accountOf_of_under hunder
      simp only [strips, hunder, Option.isSome_some, Bool.true_and] at hspares
      have hb : Tables.Backed (st.tables.tombstoneAll (st.accountOf lease.scope) lease.scope
          (st.removedKeys lease.scope update)) := hk.backed.tombstoneAll hk.owned _
      refine Tables.applyDerived_kept haccount derived.removed rows (hk.owned.tombstoneAll _ _) ?_
      rw [← haccount]
      exact hb.strip_tombstoneAll hspares
  | maintenance lease derived =>
    simp only [scopesTables]
    cases hunder : st.under lease with
    | none => exact ⟨hk.owned, hk.backed⟩
    | some account =>
      simp only [strips, hunder, Option.isSome_some, Bool.true_and] at hspares
      exact Tables.applyDerived_kept (accountOf_of_under hunder) derived.removed rows hk.owned (hk.backed.strip hspares)
  | forgetScope lease =>
    simp only [scopesTables]
    cases hunder : st.under lease with
    | none => exact ⟨hk.owned, hk.backed⟩
    | some account =>
      simp only [strips, hunder, Option.isSome_some, Bool.true_and] at hspares
      exact ⟨hk.owned.strip, hk.backed.strip hspares⟩
  | purgeAccount account => exact ⟨hk.owned.strip, backed_purge hk fun _ h => h⟩
  | purgeDomain account domain =>
    simp only [scopesTables]
    by_cases hmail : domain = .mail
    · rw [if_pos hmail]
      exact ⟨hk.owned.strip, backed_purge hk fun _ h => by simp [h]⟩
    · rw [if_neg hmail]
      simp only [strips, decide_eq_true hmail, Bool.true_and] at hspares
      exact ⟨hk.owned.strip, hk.backed.strip hspares⟩
  | _ => exact ⟨hk.owned, hk.backed⟩

theorem Kept.tombstone (hk : Kept st) (k : SyncScope × ProviderKey) : Kept (st.tombstone k) where
  owned := hk.owned.tombstone _
  backed := hk.backed.tombstone hk.owned

theorem Kept.of_uncached (hk : Kept st) (hmessage : t.message = st.tables.message)
    (hcached : ∀ held, t.cached held = true → st.tables.cached held = true ∨ st.tables.live held = true) :
    Kept { st with tables := t } where
  owned := by
    intro k row hget
    rw [hmessage] at hget
    exact hk.owned k row hget
  backed := by
    intro held h
    have hlive : st.tables.live held = true := by
      rcases hcached held h with h | h
      · exact hk.backed held h
      · exact h
    unfold Tables.live at hlive ⊢
    rw [hmessage]
    exact hlive

theorem owned_run (ho : Tables.Owned st.accountOf t)
    (haccount : ∀ a, call ≠ .purgeAccount a) (hdomain : ∀ a d, call ≠ .purgeDomain a d) (now : UtcDateTime) :
    Tables.Owned (Store.accountOf ⟨(st.base.run call now).1, t⟩) t := by
  intro k row hget
  obtain ⟨r, hr, hraccount⟩ := accountOf_eq_some.mp (ho k row hget)
  obtain ⟨r', hr', hsame⟩ := account_run hr haccount hdomain now
  exact accountOf_eq_some.mpr ⟨r', hr', hsame.trans hraccount⟩

theorem Kept.scopes (hk : Kept st) (call : Scope.Call ω) (rows : List MailRow)
    (hspares : st.tables.spares (st.strips call) = true) (now : UtcDateTime) :
    Kept (st.run (.scopes call rows) now) := by
  obtain ⟨ho, hb⟩ := scopesTables_kept hk rows hspares
  refine ⟨?_, hb⟩
  cases call with
  | purgeAccount account => exact owned_purge ho fun k row hget => (Tables.get?_strip.mp hget).2
  | purgeDomain account domain =>
    refine owned_purge ho fun k row hget => ?_
    simp only [scopesTables] at hget
    split at hget
    · exact (Tables.get?_strip.mp hget).2
    · exact (Tables.get?_strip.mp hget).2
  | _ => exact owned_run ho (fun a h => by cases h) (fun a d h => by cases h) now

theorem cached_put {held other : Held} :
    (∀ source, Tables.cached { t with messageSource := t.messageSource.put held source } other = true →
      t.cached other = true ∨ other = held) ∧
    (∀ row, Tables.cached { t with messageBody := t.messageBody.put held row } other = true →
      t.cached other = true ∨ other = held) ∧
    (∀ answer, Tables.cached { t with sourceAttachment := t.sourceAttachment.put held answer } other = true →
      t.cached other = true ∨ other = held) := by
  by_cases hother : other = held
  · exact ⟨fun _ _ => .inr hother, fun _ _ => .inr hother, fun _ _ => .inr hother⟩
  · refine ⟨fun _ h => .inl ?_, fun _ h => .inl ?_, fun _ h => .inl ?_⟩ <;>
      simpa [Tables.cached, get?_put, hother] using h

theorem Kept.run (hk : Kept st) (call : Call ω) (hcareful : st.careful call = true) (now : UtcDateTime) :
    Kept (st.run call now) := by
  cases call with
  | scopes call rows => exact hk.scopes call rows hcareful now
  | prune account floor =>
    show Kept ((st.outOfWindow account floor).foldl Store.tombstone st)
    generalize st.outOfWindow account floor = victims
    induction victims generalizing st with
    | nil => exact hk
    | cons k victims ih => exact ih (hk.tombstone k) hcareful
  | putMessageSource held source =>
    refine hk.of_uncached rfl fun other h => ?_
    rcases cached_put.1 source h with h | rfl
    · exact .inl h
    · exact .inr hcareful
  | putMessageBody held body =>
    refine hk.of_uncached rfl fun other h => ?_
    rcases cached_put.2.1 _ h with h | rfl
    · exact .inl h
    · exact .inr hcareful
  | setMailHasAttachment held answer =>
    refine hk.of_uncached rfl fun other h => ?_
    rcases cached_put.2.2 answer h with h | rfl
    · exact .inl h
    · exact .inr hcareful
  | dropMessageSourcesOver account octets =>
    refine hk.of_uncached rfl fun other h => .inl ?_
    simp only [Tables.cached, get?_filterRows, Bool.or_eq_true] at h ⊢
    rcases h with (h | h) | h
    · exact .inl (.inl h)
    · refine .inl (.inr ?_)
      obtain ⟨source, hsource⟩ := Option.isSome_iff_exists.mp h
      rw [Option.filter_eq_some_iff] at hsource
      rw [hsource.1]
      rfl
    · exact .inr h

theorem kept_new : Kept (new : Store ω) where
  owned := fun k row h => by cases h
  backed := fun held h => by cases h

end Store
end Content
end SyncEngine
