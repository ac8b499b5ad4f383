import Mathlib

/-!
# Rows under distinct keys

A finite map kept as the list of its rows, for tables whose key has no order that matters.  That no two rows share a
key is a field, and every operation has one lemma saying what `get?` reads after it.
-/

namespace SyncEngine

structure Keyed (κ α : Type) where
  rows : List (κ × α)
  distinct : (rows.map Prod.fst).Nodup

namespace Keyed

variable {κ α β : Type} [DecidableEq κ]

def empty : Keyed κ α := ⟨[], List.nodup_nil⟩

def get? (t : Keyed κ α) (k : κ) : Option α := t.rows.lookup k

def keys (t : Keyed κ α) : List κ := t.rows.map Prod.fst

variable {k j : κ}

theorem lookup_cons_ne (h : j ≠ k) (a : α) (l : List (κ × α)) : ((k, a) :: l).lookup j = l.lookup j := by
  have hb : (j == k) = false := by simpa using h
  rw [List.lookup_cons, hb]

variable {l : List (κ × α)} {a : α}

theorem lookup_eq_some_iff (hl : (l.map Prod.fst).Nodup) : l.lookup k = some a ↔ (k, a) ∈ l := by
  induction l with
  | nil => simp
  | cons r rest ih =>
    obtain ⟨j, b⟩ := r
    rw [List.map_cons, List.nodup_cons] at hl
    rw [List.mem_cons]
    by_cases hk : k = j
    · subst hk
      rw [List.lookup_cons_self, Option.some.injEq]
      constructor
      · intro h
        exact Or.inl (by rw [h])
      · intro h
        rcases h with h | h
        · exact (Prod.mk.inj h).2.symm
        · exact absurd (List.mem_map_of_mem h) hl.1
    · rw [lookup_cons_ne hk, ih hl.2]
      constructor
      · intro h
        exact Or.inr h
      · intro h
        rcases h with h | h
        · exact absurd (Prod.mk.inj h).1 hk
        · exact h

variable (t : Keyed κ α)

theorem get?_eq_some_iff : t.get? k = some a ↔ (k, a) ∈ t.rows := lookup_eq_some_iff t.distinct

theorem mem_keys_iff : k ∈ t.keys ↔ ∃ a, t.get? k = some a := by
  simp only [keys, List.mem_map, Prod.exists, exists_and_right, exists_eq_right, get?_eq_some_iff]

@[simp] theorem get?_empty (k : κ) : (empty : Keyed κ α).get? k = none := rfl

/-! ## Rewriting and deleting rows -/

/-- Rewrite every row, keeping the keys. -/
def mapRows (t : Keyed κ α) (f : κ → α → β) : Keyed κ β where
  rows := t.rows.map fun r => (r.1, f r.1 r.2)
  distinct := by
    rw [List.map_map]
    exact t.distinct

theorem lookup_map (l : List (κ × α)) (f : κ → α → β) (k : κ) :
    (l.map fun r => (r.1, f r.1 r.2)).lookup k = (l.lookup k).map (f k) := by
  induction l with
  | nil => rfl
  | cons r rest ih =>
    obtain ⟨j, a⟩ := r
    rw [List.map_cons]
    by_cases hk : k = j
    · subst hk
      rw [List.lookup_cons_self, List.lookup_cons_self]
      rfl
    · rw [lookup_cons_ne hk, lookup_cons_ne hk, ih]

@[simp] theorem get?_mapRows (f : κ → α → β) (k : κ) : (t.mapRows f).get? k = (t.get? k).map (f k) :=
  lookup_map t.rows f k

/-- Rewrite the row under `k`, if there is one. -/
def modify (t : Keyed κ α) (k : κ) (f : α → α) : Keyed κ α :=
  t.mapRows fun j a => if j = k then f a else a

theorem get?_modify (k : κ) (f : α → α) (j : κ) :
    (t.modify k f).get? j = if j = k then (t.get? j).map f else t.get? j := by
  rw [modify, get?_mapRows]
  by_cases hj : j = k
  · simp [hj]
  · simp [hj]

/-- Keep the rows `p` accepts. -/
def filterRows (t : Keyed κ α) (p : κ → α → Bool) : Keyed κ α where
  rows := t.rows.filter fun r => p r.1 r.2
  distinct := by
    have hsub : (t.rows.filter fun r => p r.1 r.2).Sublist t.rows := List.filter_sublist
    exact t.distinct.sublist (hsub.map Prod.fst)

theorem get?_filterRows (p : κ → α → Bool) (k : κ) : (t.filterRows p).get? k = (t.get? k).filter (p k) := by
  apply Option.ext
  intro a
  rw [get?_eq_some_iff, Option.filter_eq_some_iff, get?_eq_some_iff]
  show (k, a) ∈ t.rows.filter _ ↔ _
  rw [List.mem_filter]

/-! ## Writing a row -/

def putRow (k : κ) (a : α) : List (κ × α) → List (κ × α)
  | [] => [(k, a)]
  | r :: rest => if r.1 = k then (k, a) :: rest else r :: putRow k a rest

theorem mem_keys_putRow : j ∈ (putRow k a l).map Prod.fst ↔ j = k ∨ j ∈ l.map Prod.fst := by
  induction l with
  | nil => simp [putRow]
  | cons r rest ih =>
    rw [putRow]
    by_cases hr : r.1 = k
    · rw [if_pos hr]
      simp only [List.map_cons, List.mem_cons, hr]
      tauto
    · rw [if_neg hr]
      simp only [List.map_cons, List.mem_cons, ih]
      tauto

theorem putRow_distinct (k : κ) (a : α) (hl : (l.map Prod.fst).Nodup) : ((putRow k a l).map Prod.fst).Nodup := by
  induction l with
  | nil => simp [putRow]
  | cons r rest ih =>
    rw [List.map_cons, List.nodup_cons] at hl
    rw [putRow]
    by_cases hr : r.1 = k
    · rw [if_pos hr, List.map_cons, List.nodup_cons]
      exact ⟨hr ▸ hl.1, hl.2⟩
    · rw [if_neg hr, List.map_cons, List.nodup_cons]
      refine ⟨?_, ih hl.2⟩
      intro hin
      rcases mem_keys_putRow.mp hin with h | h
      · exact hr h
      · exact hl.1 h

/-- Write the row under `k`, replacing the one there. -/
def put (t : Keyed κ α) (k : κ) (a : α) : Keyed κ α :=
  ⟨putRow k a t.rows, putRow_distinct k a t.distinct⟩

theorem lookup_putRow (k : κ) (a : α) (l : List (κ × α)) (j : κ) :
    (putRow k a l).lookup j = if j = k then some a else l.lookup j := by
  induction l with
  | nil =>
    rw [putRow]
    by_cases hj : j = k
    · rw [if_pos hj, hj, List.lookup_cons_self]
    · rw [if_neg hj, lookup_cons_ne hj]
  | cons r rest ih =>
    obtain ⟨i, b⟩ := r
    rw [putRow]
    by_cases hi : i = k
    · rw [if_pos hi]
      by_cases hj : j = k
      · rw [if_pos hj, hj, List.lookup_cons_self]
      · rw [if_neg hj, lookup_cons_ne hj, lookup_cons_ne (fun h => hj (h.trans hi))]
    · rw [if_neg hi]
      by_cases hji : j = i
      · subst hji
        rw [List.lookup_cons_self, List.lookup_cons_self, if_neg hi]
      · rw [lookup_cons_ne hji, lookup_cons_ne hji, ih]

theorem get?_put (k : κ) (a : α) (j : κ) : (t.put k a).get? j = if j = k then some a else t.get? j :=
  lookup_putRow k a t.rows j

theorem lookup_foldl_put (hl : (l.map Prod.fst).Nodup) (t : Keyed κ α) (k : κ) :
    (l.foldl (fun t r => t.put r.1 r.2) t).get? k = (l.lookup k).or (t.get? k) := by
  induction l generalizing t with
  | nil => rfl
  | cons r rest ih =>
    obtain ⟨j, a⟩ := r
    rw [List.map_cons, List.nodup_cons] at hl
    rw [List.foldl_cons, ih hl.2, get?_put]
    by_cases hk : k = j
    · subst hk
      have hnone : rest.lookup k = none := by
        rw [Option.eq_none_iff_forall_ne_some]
        intro b hb
        have hmem := (lookup_eq_some_iff hl.2).mp hb
        exact hl.1 (List.mem_map.mpr ⟨_, hmem, rfl⟩)
      rw [hnone, List.lookup_cons_self, if_pos rfl]
      rfl
    · rw [if_neg hk, lookup_cons_ne hk]

theorem get?_foldl_put (t u : Keyed κ α) (k : κ) :
    (u.rows.foldl (fun t r => t.put r.1 r.2) t).get? k = (u.get? k).or (t.get? k) :=
  lookup_foldl_put u.distinct t k

/-! ## Grouping -/

/-- Append to the list under `k`, which starts empty. -/
def push (t : Keyed κ (List α)) (k : κ) (a : α) : Keyed κ (List α) :=
  t.put k ((t.get? k).getD [] ++ [a])

/-- The elements of a list under the key each of them has, in the order of the list. -/
def group (l : List α) (f : α → κ) : Keyed κ (List α) :=
  l.foldl (fun t a => t.push (f a) a) empty

theorem getD_foldl_push (l : List α) (f : α → κ) (t : Keyed κ (List α)) (k : κ) :
    ((l.foldl (fun t a => t.push (f a) a) t).get? k).getD [] = (t.get? k).getD [] ++ l.filter fun a => f a = k := by
  induction l generalizing t with
  | nil => simp
  | cons a rest ih =>
    rw [List.foldl_cons, ih, push, get?_put]
    by_cases hk : f a = k
    · simp [hk]
    · rw [if_neg (Ne.symm hk), List.filter_cons_of_neg (by simpa using hk)]

theorem mem_keys_foldl_push (l : List α) (f : α → κ) (t : Keyed κ (List α)) (k : κ) :
    k ∈ (l.foldl (fun t a => t.push (f a) a) t).keys ↔ k ∈ t.keys ∨ ∃ a ∈ l, f a = k := by
  induction l generalizing t with
  | nil => simp
  | cons a rest ih =>
    rw [List.foldl_cons, ih]
    have hput : k ∈ (t.push (f a) a).keys ↔ k = f a ∨ k ∈ t.keys := mem_keys_putRow
    rw [hput, List.exists_mem_cons_iff]
    tauto

theorem get?_group (l : List α) (f : α → κ) (k : κ) {g : List α} :
    (group l f).get? k = some g ↔ g = l.filter (fun a => f a = k) ∧ ∃ a ∈ l, f a = k := by
  have hval : ((group l f).get? k).getD [] = l.filter fun a => f a = k := by
    rw [group, getD_foldl_push]
    simp
  have hkey : k ∈ (group l f).keys ↔ ∃ a ∈ l, f a = k := by
    rw [group, mem_keys_foldl_push]
    simp [keys, empty]
  constructor
  · intro h
    refine ⟨?_, hkey.mp ((mem_keys_iff _).mpr ⟨g, h⟩)⟩
    rw [← hval, h]
    rfl
  · rintro ⟨hg, hex⟩
    obtain ⟨g', hg'⟩ := (mem_keys_iff _).mp (hkey.mpr hex)
    rw [hg', Option.getD_some] at hval
    rw [hg', hg, hval]

theorem get?_group_eq_none (l : List α) (f : α → κ) (k : κ) : (group l f).get? k = none ↔ ∀ a ∈ l, f a ≠ k := by
  rw [Option.eq_none_iff_forall_ne_some]
  constructor
  · intro h a ha hk
    exact h _ ((get?_group l f k).mpr ⟨rfl, a, ha, hk⟩)
  · intro h g hg
    obtain ⟨-, a, ha, hk⟩ := (get?_group l f k).mp hg
    exact h a ha hk

/-! ## Keeping the least -/

/-- Keep the smaller of `a` and what stands under `k`. -/
def lower [LinearOrder α] (t : Keyed κ α) (k : κ) (a : α) : Keyed κ α :=
  match t.get? k with
  | some current => t.put k (if a < current then a else current)
  | none => t.put k a

/-- The table holds under each key the least of what was written there. -/
structure Lowest [LinearOrder α] (t : Keyed κ α) (written : Set (κ × α)) : Prop where
  least : ∀ k m, t.get? k = some m → IsLeast {a | (k, a) ∈ written} m
  found : ∀ k a, (k, a) ∈ written → ∃ m, t.get? k = some m

theorem lowest_empty [LinearOrder α] : Lowest (empty : Keyed κ α) ∅ :=
  ⟨fun _ _ h => by simp at h, fun _ _ h => absurd h (Set.notMem_empty _)⟩

theorem Lowest.lower [LinearOrder α] {t : Keyed κ α} {written : Set (κ × α)} (h : Lowest t written) (k : κ) (a : α) :
    Lowest (t.lower k a) (insert (k, a) written) := by
  have hget : ∀ j, (t.lower k a).get? j = if j = k then
      some (match t.get? k with
        | some current => if a < current then a else current
        | none => a) else t.get? j := by
    intro j
    rw [Keyed.lower]
    cases t.get? k with
    | some current => exact get?_put t k _ j
    | none => exact get?_put t k _ j
  constructor
  · intro j m hm
    rw [hget] at hm
    by_cases hj : j = k
    · subst hj
      rw [if_pos rfl, Option.some.injEq] at hm
      cases hcur : t.get? j with
      | some current =>
        rw [hcur] at hm
        obtain ⟨hin, hle⟩ := h.least j current hcur
        by_cases hlt : a < current
        · have hm' : a = m := by simpa [hlt] using hm
          subst hm'
          refine ⟨Set.mem_insert _ _, ?_⟩
          rintro b (hb | hb)
          · exact le_of_eq (Prod.mk.inj hb).2.symm
          · exact le_trans (le_of_lt hlt) (hle hb)
        · have hm' : current = m := by simpa [hlt] using hm
          subst hm'
          refine ⟨Set.mem_insert_of_mem _ hin, ?_⟩
          rintro b (hb | hb)
          · rw [(Prod.mk.inj hb).2]
            exact le_of_not_gt hlt
          · exact hle hb
      | none =>
        rw [hcur] at hm
        have hm' : a = m := hm
        subst hm'
        refine ⟨Set.mem_insert _ _, ?_⟩
        rintro b (hb | hb)
        · exact le_of_eq (Prod.mk.inj hb).2.symm
        · obtain ⟨c, hc⟩ := h.found j b hb
          rw [hcur] at hc
          simp at hc
    · rw [if_neg hj] at hm
      obtain ⟨hin, hle⟩ := h.least j m hm
      refine ⟨Set.mem_insert_of_mem _ hin, ?_⟩
      rintro b (hb | hb)
      · exact absurd (Prod.mk.inj hb).1 hj
      · exact hle hb
  · intro j b hb
    rw [hget]
    by_cases hj : j = k
    · rw [if_pos hj]
      exact ⟨_, rfl⟩
    · rw [if_neg hj]
      rcases hb with hb | hb
      · exact absurd (Prod.mk.inj hb).1 hj
      · exact h.found j b hb

end Keyed
end SyncEngine
