import Mathlib

/-!
# Union-find by parent pointers

`find` climbs to the root and then points every node it passed at that root, and `union` hangs one root under the
other, without ranks.  A forest carries the proof that its chains end, as the existence of a measure that drops along
every parent pointer.  `find` changes no root, and `union` exactly the roots of the tree it hangs.
-/

namespace SyncEngine

structure UnionFind (n : Nat) where
  parent : Fin n → Fin n
  ranked : ∃ rank : Fin n → Nat, ∀ i, parent i ≠ i → rank (parent i) < rank i

namespace UnionFind

variable {n : Nat}

def new (n : Nat) : UnionFind n := ⟨id, fun _ => 0, fun _ h => absurd rfl h⟩

/-- Follow parents until one is its own, for at most `fuel` of them. -/
def climb (parent : Fin n → Fin n) : Nat → Fin n → Fin n
  | 0, i => i
  | fuel + 1, i => if parent i = i then i else climb parent fuel (parent i)

/-- The root of a node.  A chain passes each node once, so `n` steps reach its end. -/
def root (u : UnionFind n) (i : Fin n) : Fin n := climb u.parent n i

/-- Point a node at `top`, and the nodes its old parents lead through after it. -/
def compress (top : Fin n) : Nat → (Fin n → Fin n) → Fin n → Fin n → Fin n
  | 0, parent, _ => parent
  | fuel + 1, parent, node =>
    if parent node = top then parent
    else compress top fuel (Function.update parent node top) (parent node)

/-! ## Chains end -/

variable (u : UnionFind n)

/-- The measure can be taken below the number of nodes: count the nodes it puts lower. -/
theorem bounded_rank : ∃ rank : Fin n → Nat, (∀ i, rank i < n) ∧ ∀ i, u.parent i ≠ i → rank (u.parent i) < rank i := by
  obtain ⟨rank, hrank⟩ := u.ranked
  refine ⟨fun i => (Finset.univ.filter fun j => rank j < rank i).card, ?_, ?_⟩
  · intro i
    have hss : (Finset.univ.filter fun j => rank j < rank i) ⊂ Finset.univ := by
      refine Finset.filter_ssubset.mpr ⟨i, Finset.mem_univ i, ?_⟩
      exact Nat.lt_irrefl _
    have hlt := Finset.card_lt_card hss
    rw [Finset.card_univ, Fintype.card_fin] at hlt
    exact hlt
  · intro i hi
    have hdrop := hrank i hi
    apply Finset.card_lt_card
    refine Finset.ssubset_iff_subset_ne.mpr ⟨?_, ?_⟩
    · intro j hj
      rw [Finset.mem_filter] at hj ⊢
      exact ⟨hj.1, lt_trans hj.2 hdrop⟩
    · intro heq
      have hin : u.parent i ∈ Finset.univ.filter fun j => rank j < rank i := by
        rw [Finset.mem_filter]
        exact ⟨Finset.mem_univ _, hdrop⟩
      rw [← heq, Finset.mem_filter] at hin
      exact Nat.lt_irrefl _ hin.2

variable {parent : Fin n → Fin n} {rank : Fin n → Nat} {fuel : Nat} {i : Fin n}

theorem climb_add (hrank : ∀ i, parent i ≠ i → rank (parent i) < rank i)
    (h : rank i ≤ fuel) (more : Nat) : climb parent (fuel + more) i = climb parent fuel i := by
  induction fuel generalizing i with
  | zero =>
    have hroot : parent i = i := by
      by_contra hne
      have := hrank i hne
      omega
    cases more with
    | zero => rfl
    | succ more =>
      show climb parent (0 + more + 1) i = i
      rw [climb, if_pos hroot]
  | succ fuel ih =>
    rw [Nat.succ_add, climb, climb]
    by_cases hroot : parent i = i
    · rw [if_pos hroot, if_pos hroot]
    · rw [if_neg hroot, if_neg hroot]
      have := hrank i hroot
      exact ih (by omega)

theorem root_of_parent_eq (h : u.parent i = i) : u.root i = i := by
  cases n with
  | zero => exact i.elim0
  | succ m => rw [root, climb, if_pos h]

theorem root_parent (i : Fin n) : u.root (u.parent i) = u.root i := by
  by_cases hroot : u.parent i = i
  · rw [hroot]
  · obtain ⟨rank, hlt, hrank⟩ := u.bounded_rank
    have hdrop := hrank i hroot
    have hi := hlt i
    cases n with
    | zero => exact i.elim0
    | succ m =>
      show climb u.parent (m + 1) (u.parent i) = climb u.parent (m + 1) i
      rw [climb_add hrank (show rank (u.parent i) ≤ m by omega) 1]
      conv_rhs => rw [climb, if_neg hroot]

theorem climb_induction {P : Fin n → Prop} (hroot : ∀ i, u.parent i = i → P i)
    (hstep : ∀ i, u.parent i ≠ i → P (u.parent i) → P i) (i : Fin n) : P i := by
  obtain ⟨rank, hrank⟩ := u.ranked
  induction hr : rank i using Nat.strong_induction_on generalizing i with
  | _ r ih =>
    by_cases hi : u.parent i = i
    · exact hroot i hi
    · exact hstep i hi (ih _ (hr ▸ hrank i hi) (u.parent i) rfl)

theorem parent_root (i : Fin n) : u.parent (u.root i) = u.root i := by
  induction i using u.climb_induction with
  | hroot i hi => rw [u.root_of_parent_eq hi, hi]
  | hstep i _ ih =>
    rw [u.root_parent] at ih
    exact ih

theorem root_root (i : Fin n) : u.root (u.root i) = u.root i := u.root_of_parent_eq (u.parent_root i)

/-- The root is the only function that fixes roots and does not change along a parent. -/
theorem root_eq {f : Fin n → Fin n} (hroot : ∀ i, u.parent i = i → f i = i)
    (hstep : ∀ i, f (u.parent i) = f i) (i : Fin n) : u.root i = f i := by
  induction i using u.climb_induction with
  | hroot i hi => rw [u.root_of_parent_eq hi, hroot i hi]
  | hstep i _ ih => rw [← u.root_parent, ih, hstep]

theorem rank_root_lt {u : UnionFind n} (hrank : ∀ i, u.parent i ≠ i → rank (u.parent i) < rank i) (h : u.root i ≠ i) :
    rank (u.root i) < rank i := by
  induction i using u.climb_induction with
  | hroot i hi => exact absurd (u.root_of_parent_eq hi) h
  | hstep i hi ih =>
    have hdrop := hrank i hi
    rw [u.root_parent] at ih
    by_cases htop : u.root i = u.parent i
    · rw [htop]
      exact hdrop
    · exact lt_trans (ih htop) hdrop

/-! ## Finding -/

theorem compress_cases {top : Fin n} {node : Fin n} (hp : ∀ i, parent i = u.parent i ∨ parent i = u.root i)
    (htop : u.root node = top) (i : Fin n) :
    compress top fuel parent node i = u.parent i ∨ compress top fuel parent node i = u.root i := by
  induction fuel generalizing parent node with
  | zero => exact hp i
  | succ fuel ih =>
    rw [compress]
    by_cases hend : parent node = top
    · rw [if_pos hend]
      exact hp i
    · rw [if_neg hend]
      apply ih
      · intro j
        by_cases hj : j = node
        · rw [hj, Function.update_self]
          exact Or.inr htop.symm
        · rw [Function.update_of_ne hj]
          exact hp j
      · rcases hp node with h | h
        · rw [h, u.root_parent, htop]
        · rw [h, u.root_root, htop]

def redirect (u : UnionFind n) (parent : Fin n → Fin n)
    (hp : ∀ i, parent i = u.parent i ∨ parent i = u.root i) : UnionFind n where
  parent := parent
  ranked := by
    obtain ⟨rank, hrank⟩ := u.ranked
    refine ⟨rank, ?_⟩
    intro i hi
    rcases hp i with h | h
    · rw [h] at hi ⊢
      exact hrank i hi
    · rw [h] at hi ⊢
      exact rank_root_lt hrank hi

theorem root_redirect (hp : ∀ i, parent i = u.parent i ∨ parent i = u.root i) (i : Fin n) :
    (u.redirect parent hp).root i = u.root i := by
  apply root_eq
  · intro i hi
    have hpi : parent i = i := hi
    rcases hp i with h | h
    · exact u.root_of_parent_eq (h ▸ hpi)
    · exact h ▸ hpi
  · intro i
    show u.root (parent i) = u.root i
    rcases hp i with h | h
    · rw [h, u.root_parent]
    · rw [h, u.root_root]

/-- The root of `i`, and the forest with the path to it compressed. -/
def find (u : UnionFind n) (i : Fin n) : UnionFind n × Fin n :=
  (u.redirect (compress (u.root i) n u.parent i)
    (u.compress_cases (fun _ => Or.inl rfl) rfl), u.root i)

@[simp] theorem find_snd (i : Fin n) : (u.find i).2 = u.root i := rfl

@[simp] theorem root_find (i j : Fin n) : (u.find i).1.root j = u.root j := by rw [find, root_redirect]

/-! ## Uniting -/

/-- Hang the tree of the root `a` under the root `b`. -/
def graft (u : UnionFind n) (a b : Fin n) (ha : u.root a = a) (hb : u.root b = b) (hab : a ≠ b) :
    UnionFind n where
  parent := Function.update u.parent a b
  ranked := by
    obtain ⟨rank, hrank⟩ := u.ranked
    -- everything below `a` is lifted above `b`
    refine ⟨fun i => if u.root i = a then rank i + rank b + 1 else rank i, ?_⟩
    intro i hi
    by_cases hia : i = a
    · subst hia
      simp only [Function.update_self, ha, hb, if_true, if_neg hab.symm]
      omega
    · rw [Function.update_of_ne hia] at hi ⊢
      have hdrop := hrank i hi
      simp only [u.root_parent]
      by_cases hroot : u.root i = a
      · rw [if_pos hroot, if_pos hroot]
        omega
      · rw [if_neg hroot, if_neg hroot]
        exact hdrop

theorem root_graft {a b : Fin n} (ha : u.root a = a) (hb : u.root b = b) (hab : a ≠ b) (i : Fin n) :
    (u.graft a b ha hb hab).root i = if u.root i = a then b else u.root i := by
  apply root_eq
  · intro i hi
    have hpi : Function.update u.parent a b i = i := hi
    by_cases hia : i = a
    · rw [hia, Function.update_self] at hpi
      exact absurd hpi.symm hab
    · rw [Function.update_of_ne hia] at hpi
      rw [u.root_of_parent_eq hpi, if_neg hia]
  · intro i
    show (if u.root (Function.update u.parent a b i) = a then b
      else u.root (Function.update u.parent a b i)) = if u.root i = a then b else u.root i
    by_cases hia : i = a
    · rw [hia, Function.update_self, ha, hb, if_neg hab.symm, if_pos rfl]
    · rw [Function.update_of_ne hia, u.root_parent]

def union (u : UnionFind n) (a b : Fin n) : UnionFind n :=
  let u₁ := (u.find a).1
  let u₂ := (u₁.find b).1
  if h : (u.find a).2 = (u₁.find b).2 then u₂
  else u₂.graft (u.find a).2 (u₁.find b).2 (by simp [u₁, u₂, u.root_root])
    (by simp [u₁, u₂, u.root_root]) h

theorem root_union (a b i : Fin n) : (u.union a b).root i = if u.root i = u.root a then u.root b else u.root i := by
  rw [union]
  simp only [find_snd, root_find]
  by_cases h : u.root a = u.root b
  · rw [dif_pos h, root_find, root_find]
    by_cases hi : u.root i = u.root a
    · rw [if_pos hi, hi, h]
    · rw [if_neg hi]
  · rw [dif_neg h, root_graft, root_find, root_find]

/-- Unite as `union` does, but keep the lower of the two roots. -/
def unionLow (u : UnionFind n) (a b : Fin n) : UnionFind n :=
  let u₁ := (u.find a).1
  let u₂ := (u₁.find b).1
  if h : (u.find a).2 = (u₁.find b).2 then u₂
  else if (u.find a).2 < (u₁.find b).2 then
    u₂.graft (u₁.find b).2 (u.find a).2 (by simp [u₁, u₂, u.root_root])
      (by simp [u₁, u₂, u.root_root]) (Ne.symm h)
  else
    u₂.graft (u.find a).2 (u₁.find b).2 (by simp [u₁, u₂, u.root_root])
      (by simp [u₁, u₂, u.root_root]) h

theorem root_unionLow (a b i : Fin n) : (u.unionLow a b).root i = if u.root i = u.root a ∨ u.root i = u.root b
      then min (u.root a) (u.root b) else u.root i := by
  rw [unionLow]
  simp only [find_snd, root_find]
  by_cases h : u.root a = u.root b
  · rw [dif_pos h, root_find, root_find, h, min_self]
    by_cases hi : u.root i = u.root b
    · rw [if_pos (Or.inl hi), hi]
    · rw [if_neg (not_or.mpr ⟨hi, hi⟩)]
  · rw [dif_neg h]
    by_cases hlt : u.root a < u.root b
    · rw [if_pos hlt, root_graft, root_find, root_find, min_eq_left hlt.le]
      by_cases hi : u.root i = u.root b
      · rw [if_pos hi, if_pos (Or.inr hi)]
      · rw [if_neg hi]
        by_cases ha : u.root i = u.root a
        · rw [if_pos (Or.inl ha), ha]
        · rw [if_neg (not_or.mpr ⟨ha, hi⟩)]
    · rw [if_neg hlt, root_graft, root_find, root_find, min_eq_right (not_lt.mp hlt)]
      by_cases ha : u.root i = u.root a
      · rw [if_pos ha, if_pos (Or.inl ha)]
      · rw [if_neg ha]
        by_cases hi : u.root i = u.root b
        · rw [if_pos (Or.inr hi), hi]
        · rw [if_neg (not_or.mpr ⟨ha, hi⟩)]

/-- The classes of `u'` are those of `u` with the classes of `a` and `b` made one. -/
def Merges (u u' : UnionFind n) (a b : Fin n) : Prop :=
  ∀ c d, u'.root c = u'.root d ↔ u.root c = u.root d ∨
    (u.root c = u.root a ∨ u.root c = u.root b) ∧ (u.root d = u.root a ∨ u.root d = u.root b)

theorem merges_union (a b : Fin n) : u.Merges (u.union a b) a b := by
  intro c d
  rw [root_union, root_union]
  by_cases hc : u.root c = u.root a
  · by_cases hd : u.root d = u.root a
    · simp [hc, hd]
    · rw [if_pos hc, if_neg hd]
      constructor
      · exact fun h => Or.inr ⟨Or.inl hc, Or.inr h.symm⟩
      · rintro (h | ⟨-, h⟩)
        · exact absurd (h.symm.trans hc) hd
        · exact (h.resolve_left hd).symm
  · by_cases hd : u.root d = u.root a
    · rw [if_neg hc, if_pos hd]
      constructor
      · exact fun h => Or.inr ⟨Or.inr h, Or.inl hd⟩
      · rintro (h | ⟨h, -⟩)
        · exact absurd (h.trans hd) hc
        · exact h.resolve_left hc
    · rw [if_neg hc, if_neg hd]
      constructor
      · exact Or.inl
      · rintro (h | ⟨h, h'⟩)
        · exact h
        · rw [h.resolve_left hc, h'.resolve_left hd]

theorem merges_unionLow (a b : Fin n) : u.Merges (u.unionLow a b) a b := by
  intro c d
  rw [root_unionLow, root_unionLow]
  have hmin : min (u.root a) (u.root b) = u.root a ∨ min (u.root a) (u.root b) = u.root b := min_choice _ _
  by_cases hc : u.root c = u.root a ∨ u.root c = u.root b
  · by_cases hd : u.root d = u.root a ∨ u.root d = u.root b
    · rw [if_pos hc, if_pos hd]
      exact iff_of_true rfl (Or.inr ⟨hc, hd⟩)
    · rw [if_pos hc, if_neg hd]
      refine iff_of_false ?_ ?_
      · intro h
        exact hd (hmin.imp (fun hm => h.symm.trans hm) fun hm => h.symm.trans hm)
      · rintro (h | ⟨-, h⟩)
        · exact hd (h ▸ hc)
        · exact hd h
  · rw [if_neg hc]
    by_cases hd : u.root d = u.root a ∨ u.root d = u.root b
    · rw [if_pos hd]
      refine iff_of_false ?_ ?_
      · intro h
        exact hc (hmin.imp (fun hm => h.trans hm) fun hm => h.trans hm)
      · rintro (h | ⟨h, -⟩)
        · exact hc (h ▸ hd)
        · exact hc h
    · rw [if_neg hd]
      exact (or_iff_left fun h => hc h.1).symm

end UnionFind
end SyncEngine
