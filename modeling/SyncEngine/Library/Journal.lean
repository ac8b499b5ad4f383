import Mathlib

/-!
# A journal and its replica

A journal is everything that was ever written to a keyed store, oldest first; a write of `none` deletes.  A replica
reads the store as it was at one position or another, a key at a time, and may fail to make anything of a value.
`CoversAt` is what its reading of a key up to a position is worth: nothing is held for a key that was not there then,
and what is held is right unless the key was written since.
-/

namespace SyncEngine

/-!
## Folds that act key by key

A pass over a list of rows, each of which changes what a state holds under the row's own key and
nothing under any other, acts on every key by itself: what stands under a key in the end is what the
rows of that key make of what stood there.
-/

section PerKey

variable {σ ρ κ α β : Type}

variable (view : σ → κ → β) {step : σ → ρ → σ}

theorem foldl_view [DecidableEq κ] (key : ρ → κ) (upd : ρ → β → β)
    (h : ∀ s r k, view (step s r) k = if key r = k then upd r (view s k) else view s k)
    (rows : List ρ) (s : σ) (k : κ) :
    view (rows.foldl step s) k = (rows.filter fun r => key r = k).foldl (fun b r => upd r b) (view s k) := by
  induction rows generalizing s with
  | nil => rfl
  | cons r rows ih =>
    rw [List.foldl_cons, ih, h]
    by_cases hk : key r = k
    · rw [if_pos hk, List.filter_cons_of_pos (by simpa using hk), List.foldl_cons]
    · rw [if_neg hk, List.filter_cons_of_neg (by simpa using hk)]

theorem foldl_frame (f : σ → α) (step : σ → ρ → σ) (h : ∀ s r, f (step s r) = f s)
    (rows : List ρ) (s : σ) : f (rows.foldl step s) = f s := by
  induction rows generalizing s with
  | nil => rfl
  | cons r rows ih => rw [List.foldl_cons, ih, h]

variable (p : ρ → Bool)

theorem foldl_absorb {I : σ → Prop} {g : σ → σ} {rows : List ρ} (hI : ∀ s, I s → I (g s)) (hg : ∀ s, g (g s) = g s)
    (hstep : ∀ r ∈ rows, ∀ s, I s → step s r = if p r then g s else s) {s : σ} (hs : I s) :
    rows.foldl step s = if rows.any p then g s else s := by
  induction rows generalizing s with
  | nil => rfl
  | cons r rows ih =>
    have hrest := fun r' hr' => hstep r' (List.mem_cons_of_mem r hr')
    rw [List.foldl_cons, hstep r List.mem_cons_self s hs, List.any_cons]
    by_cases hp : p r = true
    · rw [if_pos hp, ih hrest (hI s hs), hg, ite_self, hp, Bool.true_or, if_pos rfl]
    · rw [if_neg hp, ih hrest hs, Bool.eq_false_iff.mpr hp, Bool.false_or]

theorem foldl_clear [DecidableEq κ] {step : σ → κ → σ} (cleared : β)
    (h : ∀ s j k, view (step s j) k = if j = k then cleared else view s k)
    (keys : List κ) (s : σ) (k : κ) :
    view (keys.foldl step s) k = if k ∈ keys then cleared else view s k := by
  induction keys generalizing s with
  | nil => simp
  | cons j keys ih =>
    rw [List.foldl_cons, ih, h]
    by_cases hk : k ∈ keys
    · rw [if_pos hk, if_pos (List.mem_cons_of_mem j hk)]
    · rw [if_neg hk]
      by_cases hj : j = k
      · rw [if_pos hj, if_pos (by simp [hj])]
      · rw [if_neg hj, if_neg (by simp [hk, Ne.symm hj])]

theorem foldl_write (val : ρ → α) (rows : List ρ) (b : Option α) :
    rows.foldl (fun _ r => some (val r)) b = (rows.getLast?.map val).or b := by
  induction rows generalizing b with
  | nil => rfl
  | cons r rows ih =>
    rw [List.foldl_cons, ih]
    cases hrows : rows.getLast? with
    | none =>
      have : rows = [] := List.getLast?_eq_none_iff.mp hrows
      simp [this]
    | some last => simp [List.getLast?_cons, hrows]

/-! ## The last row of a key -/

variable [DecidableEq κ] (key : ρ → κ)

def latest (rows : List ρ) (k : κ) : Option ρ := (rows.filter fun r => key r = k).getLast?

variable {key} {rows : List ρ} {r : ρ} {k : κ}

theorem latest_append (rows rows' : List ρ) (k : κ) :
    latest key (rows ++ rows') k = (latest key rows' k).or (latest key rows k) := by
  unfold latest
  rw [List.filter_append, List.getLast?_append]

theorem latest_cons (r : ρ) (rows : List ρ) (k : κ) :
    latest key (r :: rows) k = (latest key rows k).or (if key r = k then some r else none) := by
  have h := @latest_append ρ κ _ key [r] rows k
  rw [List.singleton_append] at h
  rw [h]
  by_cases hk : key r = k <;> simp [latest, hk]

theorem latest_eq_none : latest key rows k = none ↔ ∀ r ∈ rows, key r ≠ k := by
  unfold latest
  rw [List.getLast?_eq_none_iff, List.filter_eq_nil_iff]
  simp

theorem mem_of_latest (h : latest key rows k = some r) : r ∈ rows ∧ key r = k := by
  simpa using List.mem_filter.mp (List.mem_of_getLast? h)

theorem filter_eq_latest (h : (rows.map key).Nodup) (k : κ) :
    (rows.filter fun r => key r = k) = (latest key rows k).toList := by
  induction rows with
  | nil => rfl
  | cons r rows ih =>
    rw [List.map_cons, List.nodup_cons] at h
    rw [latest_cons]
    by_cases hk : key r = k
    · have hnone : latest key rows k = none := by
        rw [latest_eq_none]
        intro r' hr' he
        exact h.1 (List.mem_map.mpr ⟨r', hr', he.trans hk.symm⟩)
      rw [List.filter_cons_of_pos (by simpa using hk), ih h.2, hnone, if_pos hk]
      rfl
    · rw [List.filter_cons_of_neg (by simpa using hk), ih h.2, if_neg hk, Option.or_none]

theorem latest_of_unique (hr : r ∈ rows) (hunique : ∀ r' ∈ rows, key r' = key r → r' = r) :
    latest key rows (key r) = some r := by
  cases h : latest key rows (key r) with
  | none => exact absurd rfl (latest_eq_none.mp h r hr)
  | some r' =>
    obtain ⟨hmem, hkey⟩ := mem_of_latest h
    rw [hunique r' hmem hkey]

theorem latest_filter (b : Bool) (h : ∀ r ∈ rows, key r = k → p r = b) :
    latest key (rows.filter p) k = if b then latest key rows k else none := by
  unfold latest
  rw [List.filter_filter]
  cases b with
  | true =>
    rw [if_pos rfl]
    congr 1
    apply List.filter_congr
    intro r hr
    by_cases hk : key r = k
    · simp [hk, h r hr hk]
    · simp [hk]
  | false =>
    rw [if_neg (by simp), List.getLast?_eq_none_iff, List.filter_eq_nil_iff]
    intro r hr he
    rw [Bool.and_eq_true, decide_eq_true_eq] at he
    rw [h r hr he.1] at he
    exact absurd he.2 (by simp)

theorem latest_of_mem (h : (rows.map key).Nodup) (hr : r ∈ rows) : latest key rows (key r) = some r := by
  have hmem : r ∈ (latest key rows (key r)).toList := by
    rw [← filter_eq_latest h]
    exact List.mem_filter.mpr ⟨hr, by simp⟩
  exact Option.mem_toList.mp hmem

end PerKey

abbrev Journal (κ α : Type) := List (κ × Option α)

namespace Journal

variable {κ α β : Type} [DecidableEq κ]

/-- What the last write to a key left. -/
def value (log : Journal κ α) (k : κ) : Option α := (latest Prod.fst log k).bind Prod.snd

/-- The value a key had when `n` writes had been made. -/
def valueAt (log : Journal κ α) (n : Nat) (k : κ) : Option α := value (log.take n) k

/-- Nobody writes to the key from `n` on. -/
def QuietFrom (log : Journal κ α) (n : Nat) (k : κ) : Prop := ∀ c ∈ log.drop n, c.1 ≠ k

instance (log : Journal κ α) (n : Nat) (k : κ) : Decidable (QuietFrom log n k) :=
  inferInstanceAs (Decidable (∀ c ∈ log.drop n, c.1 ≠ k))

/-- The key had this value at some time since `n`. -/
def Found (log : Journal κ α) (n : Nat) (k : κ) (v : Option α) : Prop :=
  ∃ p, n ≤ p ∧ p ≤ log.length ∧ valueAt log p k = v

variable {log log' : Journal κ α} {n m : Nat} {k : κ} {v : Option α}

theorem value_append_of_quiet (earlier later : Journal κ α) (h : ∀ c ∈ later, c.1 ≠ k) :
    value (earlier ++ later) k = value earlier k := by
  unfold value
  rw [latest_append, latest_eq_none.mpr h, Option.none_or]

@[simp]
theorem valueAt_zero : valueAt log 0 k = none := by simp [valueAt, value, latest]

theorem valueAt_length : valueAt log log.length k = value log k := by rw [valueAt, List.take_length]

theorem valueAt_grow (h : log <+: log') (hn : n ≤ log.length) : valueAt log' n k = valueAt log n k := by
  obtain ⟨later, rfl⟩ := h
  rw [valueAt, valueAt, List.take_append_of_le_length hn]

omit [DecidableEq κ] in
theorem QuietFrom.shrink (h : log <+: log') (hq : QuietFrom log' n k) : QuietFrom log n k := by
  obtain ⟨later, rfl⟩ := h
  intro c hc
  refine hq c ?_
  rw [List.drop_append]
  exact List.mem_append_left _ hc

omit [DecidableEq κ] in
theorem QuietFrom.later (hq : QuietFrom log n k) (h : n ≤ m) : QuietFrom log m k := by
  intro c hc
  refine hq c ?_
  have hsplit : log.drop m = (log.drop n).drop (m - n) := by rw [List.drop_drop, Nat.add_sub_cancel' h]
  rw [hsplit] at hc
  exact List.mem_of_mem_drop hc

omit [DecidableEq κ] in
theorem quietFrom_length : QuietFrom log log.length k := by simp [QuietFrom]

omit [DecidableEq κ] in
theorem QuietFrom.join (h₁ : QuietFrom (log.take m) n k) (h₂ : QuietFrom log m k) : QuietFrom log n k := by
  intro c hc
  by_cases hnm : n ≤ m
  · have hsplit : log.drop n = (log.take m).drop n ++ log.drop m := by
      rw [List.drop_take]
      have hrest : log.drop m = (log.drop n).drop (m - n) := by rw [List.drop_drop, Nat.add_sub_cancel' hnm]
      rw [hrest, List.take_append_drop]
    rw [hsplit] at hc
    rcases List.mem_append.mp hc with hc | hc
    · exact h₁ c hc
    · exact h₂ c hc
  · exact h₂.later (Nat.le_of_not_le hnm) c hc

theorem QuietFrom.valueAt_eq (hq : QuietFrom log n k) (h : n ≤ m) : valueAt log m k = value log k := by
  have hquiet := hq.later h
  have hsplit := value_append_of_quiet (log.take m) (log.drop m) hquiet
  rw [List.take_append_drop] at hsplit
  rw [hsplit, valueAt]

theorem Found.grow (hf : Found log n k v) (h : log <+: log') : Found log' n k v := by
  obtain ⟨p, hn, hp, hv⟩ := hf
  refine ⟨p, hn, Nat.le_trans hp h.length_le, ?_⟩
  rw [valueAt_grow h hp, hv]

theorem Found.earlier (hf : Found log m k v) (h : n ≤ m) : Found log n k v := by
  obtain ⟨p, hm, hp, hv⟩ := hf
  exact ⟨p, Nat.le_trans h hm, hp, hv⟩

theorem Found.eq_value (hf : Found log n k v) (hq : QuietFrom log n k) : value log k = v := by
  obtain ⟨p, hn, -, hv⟩ := hf
  rw [← hv, hq.valueAt_eq hn]

theorem found_now (h : n ≤ log.length) : Found log n k (value log k) := ⟨log.length, h, Nat.le_refl _, valueAt_length⟩

/-! ## The replica -/

section Replica

variable (reads : κ → α → Option β)

structure CoversAt (log : Journal κ α) (n : Nat) (k : κ) (held : Option β) : Prop where
  absent : valueAt log n k = none → held = none
  current : QuietFrom log n k → ∀ a b, value log k = some a → reads k a = some b → held = some b

/-- The replica is up to date: it holds nothing that is gone, and everything it can read as it reads. -/
structure Agrees (log : Journal κ α) (held : κ → Option β) : Prop where
  present : ∀ k b, held k = some b → value log k ≠ none
  current : ∀ k a b, value log k = some a → reads k a = some b → held k = some b

variable {reads} {held : Option β}

theorem CoversAt.grow (hc : CoversAt reads log n k held) (h : log <+: log') (hn : n ≤ log.length) :
    CoversAt reads log' n k held := by
  refine ⟨?_, ?_⟩
  · intro hnone
    rw [valueAt_grow h hn] at hnone
    exact hc.absent hnone
  · intro hq a b hv hr
    have hquiet := hq.shrink h
    refine hc.current hquiet a b ?_ hr
    rw [← hquiet.valueAt_eq (Nat.le_refl n), ← valueAt_grow h hn, hq.valueAt_eq (Nat.le_refl n), hv]

theorem CoversAt.of_absent (h : valueAt log n k = none) : CoversAt reads log n k none := by
  refine ⟨fun _ => rfl, ?_⟩
  intro hq a b hv
  rw [← hq.valueAt_eq (Nat.le_refl n), h] at hv
  exact nomatch hv

theorem CoversAt.skip (hc : CoversAt reads log n k held) (hq : QuietFrom (log.take m) n k)
    (hnm : n ≤ m) : CoversAt reads log m k held := by
  refine ⟨?_, ?_⟩
  · intro hnone
    refine hc.absent ?_
    have hn := hq.valueAt_eq (Nat.le_refl n)
    rw [valueAt, List.take_take, Nat.min_eq_left hnm] at hn
    exact hn.trans hnone
  · intro hquiet
    exact hc.current (hq.join hquiet)

theorem CoversAt.still_absent (hc : CoversAt reads log n k held) (hn : valueAt log n k = none)
    (hm : valueAt log m k = none) : CoversAt reads log m k held := by
  rw [hc.absent hn]
  exact .of_absent hm

theorem agrees_of_covers {known : κ → Nat} {held : κ → Option β}
    (hc : ∀ k, CoversAt reads log (known k) k (held k)) (hq : ∀ k, QuietFrom log (known k) k) :
    Agrees reads log held := by
  refine ⟨?_, ?_⟩
  · intro k b hb hnone
    have habsent := (hc k).absent
    rw [(hq k).valueAt_eq (Nat.le_refl _)] at habsent
    rw [habsent hnone] at hb
    exact nomatch hb
  · intro k a b hv hr
    exact (hc k).current (hq k) a b hv hr

end Replica

end Journal

end SyncEngine
