import SyncEngine.Library.Journal
import SyncEngine.Scope.Fence

/-!
# What an apply leaves of a scope

An update acts on each key by itself.  A delta tombstones after it upserts, and a snapshot tombstones
whatever it does not list.
-/

namespace SyncEngine

/-- What is stored under a key once an update was applied. -/
def SyncUpdate.result {ω : Type} (update : SyncUpdate ω) (held : ProviderKey → Option ω)
    (k : ProviderKey) : Option ω :=
  match update with
  | .delta changed removed =>
    if k ∈ removed then none else ((latest Prod.fst changed k).map Prod.snd).or (held k)
  | .snapshot objects present =>
    if k ∈ present then ((latest Prod.fst objects k).map Prod.snd).or (held k) else none

namespace Scope

variable {ω : Type} (st : Store ω) (scope : SyncScope)

theorem objectPayload_upsertAll (objects : List (ProviderKey × ω)) (k : ProviderKey) :
    (st.upsertAll scope objects).objectPayload scope k =
      ((latest Prod.fst objects k).map Prod.snd).or (st.objectPayload scope k) := by
  unfold Store.upsertAll
  rw [foldl_view (fun (st : Store ω) k => st.objectPayload scope k) Prod.fst fun o _ => some o.2, foldl_write]
  · rfl
  · intro st o k
    show (st.object.put (scope, o.1) o.2).get? (scope, k) = _
    rw [Keyed.get?_put]
    by_cases h : o.1 = k
    · rw [if_pos h, if_pos (by rw [h])]
    · rw [if_neg h, if_neg]
      · rfl
      · intro e
        exact h (Prod.mk.inj e).2.symm

theorem objectPayload_tombstone (key k : ProviderKey) : (st.tombstone scope key).objectPayload scope k =
      if key = k then none else st.objectPayload scope k := by
  show (st.object.filterRows fun j _ => decide (j ≠ (scope, key))).get? (scope, k) = _
  rw [Keyed.get?_filterRows]
  by_cases h : key = k
  · rw [if_pos h]
    cases st.object.get? (scope, k) with
    | none => rfl
    | some a => simp [Option.filter, h]
  · rw [if_neg h]
    have hne : k ≠ key := Ne.symm h
    show _ = st.object.get? (scope, k)
    cases st.object.get? (scope, k) with
    | none => rfl
    | some a => simp [Option.filter, hne]

theorem objectPayload_tombstoneAll (keys : List ProviderKey) (k : ProviderKey) :
    (st.tombstoneAll scope keys).objectPayload scope k =
      if k ∈ keys then none else st.objectPayload scope k :=
  foldl_clear (fun (st : Store ω) k => st.objectPayload scope k) none
    (fun st j k => objectPayload_tombstone st scope j k) keys st k

theorem mem_objectKeys (k : ProviderKey) : k ∈ st.objectKeys scope ↔ (st.objectPayload scope k).isSome = true := by
  unfold Store.objectKeys Store.objectPayload
  rw [List.mem_map, Option.isSome_iff_exists, ← Keyed.mem_keys_iff]
  constructor
  · intro ⟨key, hkey, hk⟩
    obtain ⟨hmem, hscope⟩ := List.mem_filter.mp hkey
    have he : key = (scope, k) := Prod.ext (by simpa using hscope) hk
    rwa [he] at hmem
  · intro h
    exact ⟨(scope, k), List.mem_filter.mpr ⟨h, by simp⟩, rfl⟩

theorem objectPayload_applyUpdate (update : SyncUpdate ω) :
    (st.applyUpdate scope update).1.objectPayload scope = update.result (st.objectPayload scope) := by
  funext k
  cases update with
  | delta changed removed =>
    show ((st.upsertAll scope changed).tombstoneAll scope removed).objectPayload scope k = _
    rw [objectPayload_tombstoneAll, objectPayload_upsertAll]
    rfl
  | snapshot objects present =>
    show ((st.upsertAll scope objects).tombstoneAll scope _).objectPayload scope k = _
    rw [objectPayload_tombstoneAll]
    dsimp only [SyncUpdate.result]
    by_cases hk : k ∈ present
    · rw [if_pos hk, if_neg (by simp [hk]), objectPayload_upsertAll]
    · rw [if_neg hk]
      by_cases hs : ((st.upsertAll scope objects).objectPayload scope k).isSome = true
      · rw [if_pos]
        exact List.mem_filter.mpr ⟨(mem_objectKeys _ scope k).mpr hs, by simpa using hk⟩
      · rw [ite_eq_left_iff]
        intro _
        simpa using hs

theorem objectPayload_applyDerived (derived : DerivedWrite) :
    (st.applyDerived scope derived).objectPayload scope = st.objectPayload scope := by
  funext k
  unfold Store.applyDerived
  dsimp only
  rw [foldl_frame (fun st : Store ω => st.objectPayload scope k)
      (fun st occ => st.putOccurrence scope occ) (fun _ _ => rfl),
    foldl_frame (fun st : Store ω => st.objectPayload scope k)
      (fun st key => st.deleteOccurrences scope key) (fun _ _ => rfl),
    foldl_frame (fun st : Store ω => st.objectPayload scope k)
      (fun st key => st.deleteOccurrences scope key) (fun _ _ => rfl)]

def applied (row : ScopeRow) : Store.NextState → ScopeRow
  | none => row
  | some (cursor, tag) => { row with cursor := some cursor, collectionTag := tag }

theorem apply_cases (lease : SyncLease) (update : SyncUpdate ω) (derived : DerivedWrite) (next : Store.NextState) :
    (st.isCurrent lease.scope lease.token = false ∧ st.apply lease update derived next = (st, .error .staleLease)) ∨
    ∃ row st' counts, st.syncScope.get? lease.scope = some row ∧ row.token = lease.token ∧
      st.apply lease update derived next = (st', .ok counts) ∧
      st'.syncScope.get? lease.scope = some (applied row next) ∧
      st'.objectPayload lease.scope = update.result (st.objectPayload lease.scope) := by
  by_cases hcur : st.isCurrent lease.scope lease.token = true
  · obtain ⟨row, hrow, htoken⟩ := isCurrent_iff.mp hcur
    have hcontents : ((st.applyUpdate lease.scope update).1.applyDerived lease.scope derived).syncScope = st.syncScope :=
      (syncScope_applyDerived _ _ _).trans (syncScope_applyUpdate st lease.scope update)
    have hobjects : ((st.applyUpdate lease.scope update).1.applyDerived lease.scope
        derived).objectPayload lease.scope = update.result (st.objectPayload lease.scope) :=
      (objectPayload_applyDerived _ _ _).trans (objectPayload_applyUpdate st lease.scope update)
    refine .inr ⟨row, ((st.applyUpdate lease.scope update).1.applyDerived lease.scope derived).setCursor
        lease.scope next, (st.applyUpdate lease.scope update).2, hrow, htoken, ?_, ?_, ?_⟩
    · unfold Store.apply
      rw [if_pos hcur]
    · cases next with
      | none =>
        show ((st.applyUpdate lease.scope update).1.applyDerived lease.scope
          derived).syncScope.get? lease.scope = some row
        rw [hcontents, hrow]
      | some cursor =>
        show (((st.applyUpdate lease.scope update).1.applyDerived lease.scope
          derived).syncScope.modify lease.scope _).get? lease.scope = _
        rw [hcontents, Keyed.get?_modify, if_pos rfl, hrow]
        rfl
    · cases next with
      | none => exact hobjects
      | some cursor => exact hobjects
  · refine .inl ⟨by simpa using hcur, ?_⟩
    unfold Store.apply
    rw [if_neg hcur]

end Scope
end SyncEngine
