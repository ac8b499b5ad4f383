import Mathlib

/-!
# Tables keyed by a row id

A finite map from natural-number ids to rows, kept in increasing id order: an ordered map keyed by an id, or a database
table with an integer primary key.  The order is a field, so a table with two rows under one id cannot be built.
Each operation has one lemma saying what `get?` reads after it.
-/

namespace SyncEngine

structure Table (α : Type) where
  rows : List (Nat × α)
  sorted : rows.Pairwise (fun a b => a.1 < b.1)

namespace Table

variable {α β ε : Type}

def empty : Table α := ⟨[], List.Pairwise.nil⟩

/-- The row under `id`, if the table holds one. -/
def get? (t : Table α) (id : Nat) : Option α := t.rows.lookup id

/-- The rows without their ids, in id order. -/
def values (t : Table α) : List α := t.rows.map Prod.snd

/-- The ids in increasing order. -/
def keys (t : Table α) : List Nat := t.rows.map Prod.fst

variable {l : List (Nat × α)}

theorem sorted_of_keys {l' : List (Nat × α)} (h : l'.map Prod.fst = l.map Prod.fst)
    (hl : l.Pairwise (fun a b => a.1 < b.1)) : l'.Pairwise (fun a b => a.1 < b.1) := by
  rw [← List.pairwise_map (f := Prod.fst) (R := (· < ·))] at hl ⊢
  rw [h]
  exact hl

theorem lookup_cons_self (k : Nat) (a : α) (l : List (Nat × α)) : ((k, a) :: l).lookup k = some a := by simp

variable {id : Nat}

theorem lookup_cons_ne {k : Nat} (hk : id ≠ k) (a : α) (l : List (Nat × α)) : ((k, a) :: l).lookup id = l.lookup id := by
  have hb : (id == k) = false := by simpa using hk
  rw [List.lookup_cons, hb]

variable {a : α}

theorem lookup_eq_some_iff (hl : l.Pairwise (fun a b => a.1 < b.1)) : l.lookup id = some a ↔ (id, a) ∈ l := by
  induction l with
  | nil => simp
  | cons r rest ih =>
    obtain ⟨k, b⟩ := r
    rw [List.pairwise_cons] at hl
    rw [List.mem_cons]
    by_cases hk : id = k
    · subst hk
      rw [lookup_cons_self]
      simp only [Option.some.injEq, Prod.mk.injEq, true_and]
      constructor
      · intro h; exact Or.inl h.symm
      · rintro (h | h)
        · exact h.symm
        · exact absurd (hl.1 _ h) (Nat.lt_irrefl id)
    · rw [lookup_cons_ne hk, ih hl.2]
      simp [hk]

variable (t : Table α)

theorem get?_eq_some_iff : t.get? id = some a ↔ (id, a) ∈ t.rows := lookup_eq_some_iff t.sorted

theorem mem_values_iff : a ∈ t.values ↔ ∃ id, t.get? id = some a := by
  simp only [values, List.mem_map, Prod.exists, exists_eq_right, get?_eq_some_iff]

theorem get?_eq_none_iff : t.get? id = none ↔ ∀ r ∈ t.rows, r.1 ≠ id := by
  constructor
  · rintro h ⟨k, a⟩ hr rfl
    rw [(get?_eq_some_iff t).mpr hr] at h
    simp at h
  · intro h
    cases hg : t.get? id with
    | none => rfl
    | some a => exact absurd rfl (h _ ((get?_eq_some_iff t).mp hg))

theorem ext_get? {t t' : Table α} (h : ∀ id, t.get? id = t'.get? id) : t = t' := by
  have hmem : ∀ r, r ∈ t.rows ↔ r ∈ t'.rows := by
    intro r
    have hid := h r.1
    constructor
    · intro hr
      rw [(get?_eq_some_iff t).mpr hr] at hid
      exact (get?_eq_some_iff t').mp hid.symm
    · intro hr
      rw [(get?_eq_some_iff t').mpr hr] at hid
      exact (get?_eq_some_iff t).mp hid
  have hnodup : ∀ u : Table α, u.rows.Nodup := by
    intro u
    refine u.sorted.imp ?_
    rintro a b hab rfl
    exact Nat.lt_irrefl _ hab
  have hperm : t.rows.Perm t'.rows := (List.perm_ext_iff_of_nodup (hnodup t) (hnodup t')).mpr hmem
  have hrows : t.rows = t'.rows := by
    refine hperm.eq_of_pairwise ?_ t.sorted t'.sorted
    intro a b _ _ hab hba
    omega
  cases t
  cases t'
  cases hrows
  rfl

@[simp] theorem get?_empty (id : Nat) : (empty : Table α).get? id = none := rfl

/-! ## Rewriting every row -/

/-- Apply `f` to every row, keeping the ids. -/
def mapRows (t : Table α) (f : Nat → α → β) : Table β where
  rows := t.rows.map fun r => (r.1, f r.1 r.2)
  sorted := by
    rw [List.pairwise_map]
    exact t.sorted

theorem lookup_map (l : List (Nat × α)) (f : Nat → α → β) (id : Nat) :
    (l.map fun r => (r.1, f r.1 r.2)).lookup id = (l.lookup id).map (f id) := by
  induction l with
  | nil => rfl
  | cons r rest ih =>
    obtain ⟨k, a⟩ := r
    rw [List.map_cons]
    by_cases hk : id = k
    · subst hk
      rw [lookup_cons_self, lookup_cons_self]
      rfl
    · rw [lookup_cons_ne hk, lookup_cons_ne hk, ih]

@[simp] theorem get?_mapRows (f : Nat → α → β) (id : Nat) : (t.mapRows f).get? id = (t.get? id).map (f id) :=
  lookup_map t.rows f id

theorem mapRows_congr {t : Table α} {f g : Nat → α → β}
    (h : ∀ id a, t.get? id = some a → f id a = g id a) : t.mapRows f = t.mapRows g := by
  apply ext_get?
  intro id
  rw [get?_mapRows, get?_mapRows]
  cases ha : t.get? id with
  | none => rfl
  | some a => exact congrArg some (h id a ha)

/-- Rewrite the row under `id`, if there is one. -/
def modify (t : Table α) (id : Nat) (f : α → α) : Table α :=
  t.mapRows fun k a => if k = id then f a else a

theorem get?_modify (id : Nat) (f : α → α) (j : Nat) :
    (t.modify id f).get? j = if j = id then (t.get? j).map f else t.get? j := by
  rw [modify, get?_mapRows]
  by_cases hj : j = id
  · simp [hj]
  · simp [hj]

@[simp] theorem get?_modify_self (id : Nat) (f : α → α) : (t.modify id f).get? id = (t.get? id).map f := by
  rw [get?_modify, if_pos rfl]

theorem get?_modify_ne {j : Nat} (f : α → α) (hj : j ≠ id) : (t.modify id f).get? j = t.get? j := by
  rw [get?_modify, if_neg hj]

theorem modify_modify (id : Nat) (f g : α → α) : (t.modify id f).modify id g = t.modify id fun a => g (f a) := by
  apply ext_get?
  intro j
  by_cases hj : j = id
  · subst hj
    rw [get?_modify_self, get?_modify_self, get?_modify_self, Option.map_map]
    rfl
  · rw [get?_modify_ne _ _ hj, get?_modify_ne _ _ hj, get?_modify_ne _ _ hj]

/-! ## Inserting and deleting -/

/-- Place a row at its position in an ordered list, replacing one under the same id. -/
def insertRow (id : Nat) (a : α) : List (Nat × α) → List (Nat × α)
  | [] => [(id, a)]
  | r :: rest =>
    if id < r.1 then (id, a) :: r :: rest
    else if id = r.1 then (id, a) :: rest
    else r :: insertRow id a rest

variable {r : Nat × α}

theorem mem_insertRow (h : r ∈ insertRow id a l) : r = (id, a) ∨ r ∈ l := by
  induction l with
  | nil => simpa [insertRow] using h
  | cons x rest ih =>
    rw [insertRow] at h
    split at h
    · simpa using h
    · split at h
      · rcases List.mem_cons.mp h with h | h
        · exact Or.inl h
        · exact Or.inr (List.mem_cons_of_mem _ h)
      · rcases List.mem_cons.mp h with h | h
        · exact Or.inr (h ▸ List.mem_cons_self)
        · rcases ih h with h | h
          · exact Or.inl h
          · exact Or.inr (List.mem_cons_of_mem _ h)

theorem insertRow_sorted (id : Nat) (a : α) (hl : l.Pairwise (fun a b => a.1 < b.1)) :
    (insertRow id a l).Pairwise (fun a b => a.1 < b.1) := by
  induction l with
  | nil => simp [insertRow]
  | cons x rest ih =>
    rw [List.pairwise_cons] at hl
    rw [insertRow]
    split
    · rename_i hlt
      refine List.pairwise_cons.mpr ⟨?_, List.pairwise_cons.mpr hl⟩
      intro r hr
      rcases List.mem_cons.mp hr with rfl | hr
      · exact hlt
      · exact Nat.lt_trans hlt (hl.1 r hr)
    · split
      · rename_i heq
        exact List.pairwise_cons.mpr ⟨fun r hr => heq ▸ hl.1 r hr, hl.2⟩
      · rename_i hlt hne
        refine List.pairwise_cons.mpr ⟨?_, ih hl.2⟩
        intro r hr
        rcases mem_insertRow hr with rfl | hr
        · show x.1 < id
          omega
        · exact hl.1 r hr

def insert (t : Table α) (id : Nat) (a : α) : Table α :=
  ⟨insertRow id a t.rows, insertRow_sorted id a t.sorted⟩

theorem lookup_insertRow (id : Nat) (a : α) (l : List (Nat × α)) (j : Nat) :
    (insertRow id a l).lookup j = if j = id then some a else l.lookup j := by
  induction l with
  | nil =>
    rw [insertRow]
    by_cases hj : j = id
    · rw [if_pos hj, hj, lookup_cons_self]
    · rw [if_neg hj, lookup_cons_ne hj]
  | cons x rest ih =>
    obtain ⟨k, b⟩ := x
    by_cases hj : j = id
    · subst hj
      rw [if_pos rfl] at ih ⊢
      rw [insertRow]
      split
      · exact lookup_cons_self j a _
      · split
        · exact lookup_cons_self j a rest
        · rename_i hne
          rw [lookup_cons_ne hne]
          exact ih
    · rw [if_neg hj] at ih ⊢
      rw [insertRow]
      split
      · exact lookup_cons_ne hj a _
      · split
        · rename_i heq
          have hk : j ≠ k := fun e => hj (e.trans (Eq.symm heq))
          rw [lookup_cons_ne hj, lookup_cons_ne hk]
        · by_cases hk : j = k
          · rw [hk, lookup_cons_self, lookup_cons_self]
          · rw [lookup_cons_ne hk, lookup_cons_ne hk, ih]

theorem get?_insert (id : Nat) (a : α) (j : Nat) : (t.insert id a).get? j = if j = id then some a else t.get? j :=
  lookup_insertRow id a t.rows j

theorem insert_self {t : Table α} (ha : t.get? id = some a) : t.insert id a = t := by
  apply ext_get?
  intro j
  rw [get?_insert]
  by_cases hj : j = id
  · rw [if_pos hj, hj, ha]
  · rw [if_neg hj]

theorem insert_insert (id : Nat) (a b : α) : (t.insert id a).insert id b = t.insert id b := by
  apply ext_get?
  intro j
  rw [get?_insert, get?_insert, get?_insert]
  by_cases hj : j = id
  · rw [if_pos hj, if_pos hj]
  · rw [if_neg hj, if_neg hj, if_neg hj]

theorem insertRow_append (h : ∀ r ∈ l, r.1 < id) (a : α) : insertRow id a l = l ++ [(id, a)] := by
  induction l with
  | nil => rfl
  | cons r rest ih =>
    have hr := h r List.mem_cons_self
    rw [insertRow, if_neg (by omega), if_neg (by omega), ih fun x hx => h x (List.mem_cons_of_mem _ hx)]
    rfl

theorem keys_insert_append {t : Table α} (h : ∀ k ∈ t.keys, k < id) (a : α) : (t.insert id a).keys = t.keys ++ [id] := by
  have hrows : ∀ r ∈ t.rows, r.1 < id := fun r hr => h r.1 (List.mem_map_of_mem hr)
  simp [keys, insert, insertRow_append hrows]

theorem keys_insert {t : Table α} {b : α} (ha : t.get? id = some a) : (t.insert id b).keys = t.keys := by
  have hmod : t.insert id b = t.modify id fun _ => b := by
    apply ext_get?
    intro j
    rw [get?_insert, get?_modify]
    by_cases hj : j = id
    · simp [hj, ha]
    · rw [if_neg hj, if_neg hj]
  rw [hmod]
  simp [keys, modify, mapRows]

/-- Renumber every row by one, as a store whose ids start at one numbers them. -/
def renumber (t : Table α) (f : α → β) : Table β where
  rows := t.rows.map fun r => (r.1 + 1, f r.2)
  sorted := by
    rw [List.pairwise_map]
    exact t.sorted.imp fun h => Nat.succ_lt_succ h

theorem lookup_renumber (l : List (Nat × α)) (f : α → β) (id : Nat) :
    (l.map fun r => (r.1 + 1, f r.2)).lookup (id + 1) = (l.lookup id).map f := by
  induction l with
  | nil => rfl
  | cons r rest ih =>
    obtain ⟨k, a⟩ := r
    rw [List.map_cons]
    by_cases hk : id = k
    · subst hk
      rw [lookup_cons_self, lookup_cons_self]
      rfl
    · have hk' : id + 1 ≠ k + 1 := fun h => hk (Nat.succ.inj h)
      rw [lookup_cons_ne hk, lookup_cons_ne hk', ih]

@[simp] theorem get?_renumber (f : α → β) (id : Nat) : (t.renumber f).get? (id + 1) = (t.get? id).map f :=
  lookup_renumber t.rows f id

@[simp] theorem get?_renumber_zero (f : α → β) : (t.renumber f).get? 0 = none := by
  rw [get?_eq_none_iff]
  intro r hr
  obtain ⟨x, -, rfl⟩ := List.mem_map.mp hr
  exact Nat.succ_ne_zero x.1

theorem renumber_modify {t : Table α} {f : α → β} {g : β → β} {a' : α} (ha : t.get? id = some a) (hg : g (f a) = f a') :
    (t.renumber f).modify (id + 1) g = (t.insert id a').renumber f := by
  apply ext_get?
  intro j
  rw [get?_modify]
  cases j with
  | zero => simp
  | succ j =>
    rw [get?_renumber, get?_renumber, get?_insert]
    by_cases hj : j = id
    · simp [hj, ha, hg]
    · have hj' : j + 1 ≠ id + 1 := fun h => hj (Nat.succ.inj h)
      rw [if_neg hj', if_neg hj]

theorem renumber_insert (f : α → β) (id : Nat) (a : α) :
    (t.insert id a).renumber f = (t.renumber f).insert (id + 1) (f a) := by
  apply ext_get?
  intro j
  cases j with
  | zero =>
    rw [get?_renumber_zero, get?_insert, if_neg (Nat.succ_ne_zero id).symm, get?_renumber_zero]
  | succ j =>
    rw [get?_renumber, get?_insert, get?_insert, get?_renumber]
    by_cases hj : j = id
    · simp [hj]
    · have hj' : j + 1 ≠ id + 1 := fun h => hj (Nat.succ.inj h)
      rw [if_neg hj', if_neg hj]

/-- Delete the rows `p` rejects. -/
def filterRows (t : Table α) (p : Nat → α → Bool) : Table α where
  rows := t.rows.filter fun r => p r.1 r.2
  sorted := t.sorted.filter _

theorem get?_filterRows (p : Nat → α → Bool) :
    (t.filterRows p).get? id = some a ↔ t.get? id = some a ∧ p id a = true := by
  rw [get?_eq_some_iff, get?_eq_some_iff]
  show (id, a) ∈ t.rows.filter _ ↔ _
  rw [List.mem_filter]

theorem get?_filterRows_eq (p : Nat → α → Bool) (id : Nat) : (t.filterRows p).get? id = (t.get? id).filter (p id) := by
  apply Option.ext
  intro a
  rw [get?_filterRows, Option.filter_eq_some_iff]

theorem get?_filterRows_of_true {p : Nat → α → Bool}
    (hp : ∀ a, p id a = true) : (t.filterRows p).get? id = t.get? id := by
  cases h : t.get? id with
  | some a => exact (get?_filterRows t p).mpr ⟨h, hp a⟩
  | none =>
    cases h' : (t.filterRows p).get? id with
    | none => rfl
    | some a =>
      rw [((get?_filterRows t p).mp h').1] at h
      simp at h

/-! ## Visiting rows until one fails -/

/-- Rewrite the rows in order, stopping at the first failure.  The rows before it
keep what they were rewritten to. -/
def tryRows (f : Nat → α → Except ε α) : List (Nat × α) → List (Nat × α) × Except ε Unit
  | [] => ([], .ok ())
  | r :: rest =>
    match f r.1 r.2 with
    | .ok b => ((r.1, b) :: (tryRows f rest).1, (tryRows f rest).2)
    | .error e => (r :: rest, .error e)

variable (f : Nat → α → Except ε α)

theorem tryRows_keys (l : List (Nat × α)) : (tryRows f l).1.map Prod.fst = l.map Prod.fst := by
  induction l with
  | nil => rfl
  | cons r rest ih =>
    rw [tryRows]
    split
    · simp [ih]
    · rfl

def tryMap (t : Table α) (f : Nat → α → Except ε α) : Table α × Except ε Unit :=
  (⟨(tryRows f t.rows).1, sorted_of_keys (tryRows_keys f t.rows) t.sorted⟩,
    (tryRows f t.rows).2)

theorem lookup_tryRows (l : List (Nat × α)) (id : Nat) : (tryRows f l).1.lookup id = l.lookup id ∨
      ∃ a b, l.lookup id = some a ∧ f id a = .ok b ∧ (tryRows f l).1.lookup id = some b := by
  induction l with
  | nil => exact Or.inl rfl
  | cons r rest ih =>
    obtain ⟨k, a⟩ := r
    rw [tryRows]
    split
    · rename_i b hf
      by_cases hk : id = k
      · subst hk
        exact Or.inr ⟨a, b, lookup_cons_self id a rest, hf, lookup_cons_self id b _⟩
      · rw [lookup_cons_ne hk, lookup_cons_ne hk]
        exact ih
    · exact Or.inl rfl

theorem get?_tryMap (f : Nat → α → Except ε α) (id : Nat) : (t.tryMap f).1.get? id = t.get? id ∨
      ∃ a b, t.get? id = some a ∧ f id a = .ok b ∧ (t.tryMap f).1.get? id = some b :=
  lookup_tryRows f t.rows id

variable {g : Nat → α → α}

theorem tryRows_eq_map {f : Nat → α → Except ε α} (h : ∀ r ∈ l, f r.1 r.2 = .ok (g r.1 r.2)) :
    tryRows f l = (l.map fun r => (r.1, g r.1 r.2), .ok ()) := by
  induction l with
  | nil => rfl
  | cons r rest ih =>
    rw [tryRows, h r List.mem_cons_self, ih fun r' hr' => h r' (List.mem_cons_of_mem _ hr')]
    rfl

theorem tryMap_eq_mapRows {t : Table α} {f : Nat → α → Except ε α} (h : ∀ r ∈ t.rows, f r.1 r.2 = .ok (g r.1 r.2)) :
    t.tryMap f = (t.mapRows g, .ok ()) := by
  simp only [tryMap, tryRows_eq_map h]
  rfl

/-! ## Comparing two tables row by row -/

def Related (R : Nat → α → β → Prop) (t : Table α) (t' : Table β) : Prop :=
  ∀ id, Option.Rel (R id) (t.get? id) (t'.get? id)

namespace Related

variable {R R' : Nat → α → α → Prop} {t t' t'' : Table α} {id : Nat} {a a' : α}

theorem some_of_some (h : Related R t t') (ha : t.get? id = some a) : ∃ a', t'.get? id = some a' ∧ R id a a' := by
  have hid := h id
  rw [ha] at hid
  generalize t'.get? id = o at hid
  cases hid with
  | some hr => exact ⟨_, rfl, hr⟩

theorem of_some (h : Related R t t') (ha : t'.get? id = some a') : ∃ a, t.get? id = some a ∧ R id a a' := by
  have hid := h id
  rw [ha] at hid
  generalize t.get? id = o at hid
  cases hid with
  | some hr => exact ⟨_, rfl, hr⟩

theorem refl (hR : ∀ id a, R id a a) (t : Table α) : Related R t t := by
  intro id
  cases t.get? id with
  | none => exact .none
  | some a => exact .some (hR id a)

theorem trans (hR : ∀ id a b c, R id a b → R id b c → R id a c) (h : Related R t t')
    (h' : Related R t' t'') : Related R t t'' := by
  intro id
  have hid := h id
  have hid' := h' id
  generalize t.get? id = o at hid
  generalize t'.get? id = o' at hid hid'
  generalize t''.get? id = o'' at hid'
  cases hid with
  | none => exact hid'
  | some hr =>
    cases hid' with
    | some hr' => exact .some (hR _ _ _ _ hr hr')

theorem mono (hR : ∀ id a b, t.get? id = some a → R id a b → R' id a b) (h : Related R t t') : Related R' t t' := by
  intro id
  have hid := h id
  have hR' := hR id
  generalize t.get? id = o at hid hR'
  generalize t'.get? id = o' at hid
  cases hid with
  | none => exact .none
  | some hr => exact .some (hR' _ _ rfl hr)

theorem insert_both (hR : ∀ j a b, j ≠ id → R j a b → R' j a b) (hr : R' id a a')
    (h : Related R t t') : Related R' (t.insert id a) (t'.insert id a') := by
  intro j
  rw [get?_insert, get?_insert]
  by_cases hj : j = id
  · rw [if_pos hj, if_pos hj, hj]
    exact .some hr
  · rw [if_neg hj, if_neg hj]
    have hid := h j
    generalize t.get? j = o at hid
    generalize t'.get? j = o' at hid
    cases hid with
    | none => exact .none
    | some hrel => exact .some (hR j _ _ hj hrel)

theorem mapRows (f : Nat → α → α) (hf : ∀ id a, R id a (f id a)) : Related R t (t.mapRows f) := by
  intro id
  rw [get?_mapRows]
  cases t.get? id with
  | none => exact .none
  | some a => exact .some (hf id a)

theorem modify (hR : ∀ id a, R id a a) {f : α → α} (hf : ∀ a, R id a (f a)) : Related R t (t.modify id f) := by
  refine mapRows _ ?_
  intro j a
  split
  · rename_i hj
    exact hj ▸ hf a
  · exact hR j a

theorem insert (hR : ∀ id a, R id a a) (ha : t.get? id = some a) (hr : R id a a') : Related R t (t.insert id a') := by
  intro j
  rw [get?_insert]
  by_cases hj : j = id
  · rw [if_pos hj, hj, ha]
    exact .some hr
  · rw [if_neg hj]
    exact refl hR t j

theorem tryMap (hR : ∀ id a, R id a a) {f : Nat → α → Except ε α}
    (hf : ∀ id a a', f id a = .ok a' → R id a a') : Related R t (t.tryMap f).1 := by
  intro id
  rcases t.get?_tryMap f id with h | ⟨a, a', ha, hok, h⟩
  · rw [h]
    exact refl hR t id
  · rw [h, ha]
    exact .some (hf id a a' hok)

end Related

/-! ## The next row id -/

/-- The id a database gives the next row of a table without a reserved counter:
one past the largest id in it, or one when it is empty. -/
def nextRowid (t : Table α) : Nat :=
  match t.rows.getLast? with
  | none => 1
  | some r => r.1 + 1

theorem lt_nextRowid {t : Table α} (hr : r ∈ t.rows) : r.1 < t.nextRowid := by
  unfold nextRowid
  cases hl : t.rows.getLast? with
  | none => simp [List.getLast?_eq_none_iff.mp hl] at hr
  | some z =>
    obtain ⟨init, hinit⟩ := List.getLast?_eq_some_iff.mp hl
    have hs := t.sorted
    rw [hinit] at hs hr
    rcases List.mem_append.mp hr with h | h
    · have := (List.pairwise_append.mp hs).2.2 r h z (by simp)
      simp only
      omega
    · rw [List.mem_singleton.mp h]
      exact Nat.lt_succ_self _

theorem get?_nextRowid : t.get? t.nextRowid = none := by
  rw [get?_eq_none_iff]
  intro r hr
  exact Nat.ne_of_lt (lt_nextRowid hr)

theorem nextRowid_renumber {t : Table α} {n : Nat} (h : t.keys = List.range n) (f : α → β) :
    (t.renumber f).nextRowid = n + 1 := by
  have hlast : (t.renumber f).rows.getLast?.map Prod.fst = (List.range n).getLast?.map (· + 1) := by
    rw [← h, keys, List.getLast?_map, Option.map_map]
    simp only [renumber, List.getLast?_map, Option.map_map]
    rfl
  unfold nextRowid
  cases n with
  | zero =>
    rw [List.range_zero, List.getLast?_nil, Option.map_none, Option.map_eq_none_iff] at hlast
    rw [hlast]
  | succ n =>
    rw [List.range_succ, List.getLast?_concat] at hlast
    obtain ⟨r, hr, hrn⟩ := Option.map_eq_some_iff.mp hlast
    rw [hr]
    exact congrArg (· + 1) hrn

end Table

/-!
## Mutual exclusion in a table

Rows may hold a key, and no two rows may hold the same one.  Both ways a table changes
keep this: rows only give keys up (`Exclusive.release`), or some rows take keys that
nobody held, no two of them the same key (`Exclusive.acquire`).
-/

/-- No two rows hold the same key. -/
def Exclusive {α κ : Type} (holds : α → Option κ) (t : Table α) : Prop :=
  ∀ i j a b k, t.get? i = some a → t.get? j = some b → holds a = some k → holds b = some k → i = j

namespace Exclusive

variable {α κ : Type} {holds : α → Option κ} {t t' : Table α}

theorem empty : Exclusive holds (Table.empty : Table α) := by
  intro i j a b k ha
  simp at ha

/-- The row under `i` held `k` in `t`. -/
def Held (holds : α → Option κ) (t : Table α) (i : Nat) (k : κ) : Prop :=
  ∃ a, t.get? i = some a ∧ holds a = some k

theorem release (ht : Exclusive holds t) (hsub : ∀ i k, Held holds t' i k → Held holds t i k) : Exclusive holds t' := by
  intro i j a b k ha hb hka hkb
  obtain ⟨a', ha', hka'⟩ := hsub i k ⟨a, ha, hka⟩
  obtain ⟨b', hb', hkb'⟩ := hsub j k ⟨b, hb, hkb⟩
  exact ht i j a' b' k ha' hb' hka' hkb'

theorem acquire (new : Nat → κ → Prop) (ht : Exclusive holds t)
    (hsub : ∀ i k, Held holds t' i k → Held holds t i k ∨ new i k)
    (hfree : ∀ i k, new i k → ∀ j, ¬ Held holds t j k)
    (hnew : ∀ i j k, new i k → new j k → i = j) : Exclusive holds t' := by
  intro i j a b k ha hb hka hkb
  rcases hsub i k ⟨a, ha, hka⟩ with hi | hi
  · rcases hsub j k ⟨b, hb, hkb⟩ with hj | hj
    · obtain ⟨a', ha', hka'⟩ := hi
      obtain ⟨b', hb', hkb'⟩ := hj
      exact ht i j a' b' k ha' hb' hka' hkb'
    · exact absurd hi (hfree j k hj i)
  · rcases hsub j k ⟨b, hb, hkb⟩ with hj | hj
    · exact absurd hj (hfree i k hi j)
    · exact hnew i j k hi hj

end Exclusive

end SyncEngine
