import Mathlib

/-!
# Sorting by a key

Insertion sort is stable: what is left out of a list is left out of the sorted one, and sorting lists with the
same members gives the same keys in the same order.
-/

namespace SyncEngine

/-!
## What a list of parties holds between them

An invariant of a system may speak of how many things of a kind its parties hold in all.  A step replaces one party;
`tally_of_getElem?` and `tally_set` say what becomes of a tally with that of the others as a common part.
-/

variable {τ κ : Type} [DecidableEq κ]

/-- How many things of a kind the parties hold. -/
def tally (f : τ → List κ) (k : κ) (ts : List τ) : Nat := (ts.flatMap f).count k

variable {f : τ → List κ} {k k' : κ} {ts us : List τ} {t t' : τ} {i : Nat}

@[simp] theorem tally_nil : tally f k [] = 0 := rfl

@[simp] theorem tally_cons : tally f k (t :: ts) = (f t).count k + tally f k ts := by simp [tally, List.count_append]

@[simp] theorem tally_append : tally f k (ts ++ us) = tally f k ts + tally f k us := by simp [tally, List.count_append]

theorem tally_of_getElem? (h : ts[i]? = some t) : tally f k ts = (f t).count k + tally f k (ts.eraseIdx i) := by
  induction ts generalizing i with
  | nil => simp at h
  | cons u ts ih =>
    cases i with
    | zero =>
      cases h
      simp
    | succ i =>
      have hrest := ih (i := i) (by simpa using h)
      simp only [tally_cons, List.eraseIdx_cons_succ]
      omega

theorem tally_set (h : ts[i]? = some t) (t' : τ) :
    tally f k (ts.set i t') = (f t').count k + tally f k (ts.eraseIdx i) := by
  induction ts generalizing i with
  | nil => simp at h
  | cons u ts ih =>
    cases i with
    | zero => simp
    | succ i =>
      have hrest := ih (i := i) (by simpa using h)
      simp only [List.set_cons_succ, tally_cons, List.eraseIdx_cons_succ]
      omega

theorem tally_le (h : ∀ t, (f t).count k ≤ (f t).count k') (ts : List τ) : tally f k ts ≤ tally f k' ts := by
  induction ts with
  | nil => simp
  | cons t ts ih =>
    have ht := h t
    simp only [tally_cons]
    omega

end SyncEngine

namespace SyncEngine

/-!
## A list in chunks

Consecutive runs of at most `n` elements.
-/

variable {α : Type} {n : Nat}

/-- The runs, of which there are at most `fuel`. -/
def chunksFrom (n : Nat) : Nat → List α → List (List α)
  | 0, _ => []
  | _ + 1, [] => []
  | fuel + 1, x :: xs => (x :: xs).take n :: chunksFrom n fuel ((x :: xs).drop n)

def chunks (n : Nat) (xs : List α) : List (List α) := chunksFrom n xs.length xs

theorem flatten_chunksFrom (hn : 0 < n) (fuel : Nat) (xs : List α) (h : xs.length ≤ fuel) :
    (chunksFrom n fuel xs).flatten = xs := by
  induction fuel generalizing xs with
  | zero =>
    have : xs = [] := List.length_eq_zero_iff.mp (by omega)
    rw [this]
    rfl
  | succ fuel ih =>
    cases xs with
    | nil => rfl
    | cons x xs =>
      have hlength : ((x :: xs).drop n).length ≤ fuel := by
        rw [List.length_drop]
        rw [List.length_cons] at h ⊢
        omega
      rw [chunksFrom, List.flatten_cons, ih _ hlength, List.take_append_drop]

theorem flatten_chunks (hn : 0 < n) (xs : List α) : (chunks n xs).flatten = xs :=
  flatten_chunksFrom hn xs.length xs (Nat.le_refl _)

variable {fuel : Nat} {xs : List α}

theorem chunksFrom_eq_chunks (hn : 0 < n) (h : xs.length ≤ fuel) : chunksFrom n fuel xs = chunks n xs := by
  have hfuel : ∀ (fuel fuel' : Nat) (xs : List α), xs.length ≤ fuel → xs.length ≤ fuel' →
      chunksFrom n fuel xs = chunksFrom n fuel' xs := by
    intro fuel
    induction fuel with
    | zero =>
      intro fuel' xs hxs _
      obtain rfl := List.length_eq_zero_iff.mp (Nat.le_zero.mp hxs)
      cases fuel' <;> rfl
    | succ fuel ih =>
      intro fuel' xs hxs hxs'
      cases xs with
      | nil => cases fuel' <;> rfl
      | cons x xs =>
        cases fuel' with
        | zero => exact nomatch hxs'
        | succ fuel' =>
          rw [List.length_cons] at hxs hxs'
          rw [chunksFrom, chunksFrom, ih fuel' _ (by rw [List.length_drop, List.length_cons]; omega)
            (by rw [List.length_drop, List.length_cons]; omega)]
  exact hfuel fuel xs.length xs h (Nat.le_refl _)

variable {c : List α}

theorem chunks_append (hn : 0 < n) (hc : c.length = n) : chunks n (c ++ xs) = c :: chunks n xs := by
  cases c with
  | nil =>
    rw [List.length_nil] at hc
    omega
  | cons x c =>
    have htake : (x :: (c ++ xs)).take n = x :: c := List.take_left' hc
    have hdrop : (x :: (c ++ xs)).drop n = xs := List.drop_left' hc
    show chunksFrom n (x :: (c ++ xs)).length (x :: (c ++ xs)) = _
    rw [List.length_cons, chunksFrom, htake, hdrop, chunksFrom_eq_chunks hn (by rw [List.length_append]; omega)]

theorem ne_nil_of_mem_chunksFrom (hn : 0 < n) (h : c ∈ chunksFrom n fuel xs) : c ≠ [] := by
  induction fuel generalizing xs with
  | zero => exact absurd h List.not_mem_nil
  | succ fuel ih =>
    cases xs with
    | nil => exact absurd h List.not_mem_nil
    | cons x xs =>
      rcases List.mem_cons.mp h with rfl | h
      · intro he
        rw [List.take_eq_nil_iff] at he
        rcases he with he | he
        · omega
        · exact List.cons_ne_nil _ _ he
      · exact ih h

theorem ne_nil_of_mem_chunks (hn : 0 < n) (h : c ∈ chunks n xs) : c ≠ [] := ne_nil_of_mem_chunksFrom hn h

theorem sublist_of_mem_chunks (hn : 0 < n) (h : c ∈ chunks n xs) : c.Sublist xs := by
  have hflat := List.sublist_flatten_of_mem h
  rwa [flatten_chunks hn] at hflat

theorem length_le_of_mem_chunksFrom (h : c ∈ chunksFrom n fuel xs) : c.length ≤ n := by
  induction fuel generalizing xs with
  | zero => exact absurd h List.not_mem_nil
  | succ fuel ih =>
    cases xs with
    | nil => exact absurd h List.not_mem_nil
    | cons x xs =>
      rcases List.mem_cons.mp h with rfl | h
      · exact List.length_take_le n (x :: xs)
      · exact ih h

theorem length_le_of_mem_chunks (h : c ∈ chunks n xs) : c.length ≤ n := length_le_of_mem_chunksFrom h

end SyncEngine

namespace SyncEngine
namespace StableSort

variable {α κ : Type} [LinearOrder κ] {key : α → κ}

def sortBy (key : α → κ) (l : List α) : List α := l.insertionSort fun a b => key a ≤ key b

theorem sortBy_perm (l : List α) : (sortBy key l).Perm l := List.perm_insertionSort _ l

theorem sortBy_pairwise (l : List α) : (sortBy key l).Pairwise fun a b => key a ≤ key b := by
  have : Std.Total fun a b : α => key a ≤ key b := ⟨fun a b => le_total (key a) (key b)⟩
  have : IsTrans α fun a b => key a ≤ key b := ⟨fun a b c => le_trans⟩
  exact List.pairwise_insertionSort _ l

variable {l : List α} (p : α → Bool)

theorem filter_orderedInsert (a : α) (hsorted : l.Pairwise fun a b => key a ≤ key b) :
    (l.orderedInsert (fun a b => key a ≤ key b) a).filter p =
      if p a then (l.filter p).orderedInsert (fun a b => key a ≤ key b) a else l.filter p := by
  induction l with
  | nil =>
    by_cases hp : p a
    · simp [hp]
    · simp [hp]
  | cons b l ih =>
    have hrest := ih hsorted.of_cons
    by_cases hab : key a ≤ key b
    · rw [List.orderedInsert_cons, if_pos hab]
      by_cases hp : p a
      · rw [if_pos hp, List.filter_cons_of_pos hp]
        have hall : ∀ c ∈ (b :: l).filter p, key a ≤ key c := by
          intro c hc
          rcases List.mem_cons.mp (List.mem_of_mem_filter hc) with rfl | hc
          · exact hab
          · exact le_trans hab (List.rel_of_pairwise_cons hsorted hc)
        cases hf : (b :: l).filter p with
        | nil => rfl
        | cons c cs =>
          rw [hf] at hall
          rw [List.orderedInsert_cons, if_pos (hall c List.mem_cons_self)]
      · rw [if_neg hp, List.filter_cons_of_neg hp]
    · rw [List.orderedInsert_cons, if_neg hab]
      by_cases hb : p b
      · rw [List.filter_cons_of_pos hb, List.filter_cons_of_pos hb, hrest]
        by_cases hp : p a
        · rw [if_pos hp, if_pos hp, List.orderedInsert_cons, if_neg hab]
        · rw [if_neg hp, if_neg hp]
      · rw [List.filter_cons_of_neg hb, List.filter_cons_of_neg hb, hrest]

theorem sortBy_filter (l : List α) : sortBy key (l.filter p) = (sortBy key l).filter p := by
  induction l with
  | nil => rfl
  | cons a l ih =>
    have hstep : sortBy key (a :: l) = (sortBy key l).orderedInsert (fun a b => key a ≤ key b) a := rfl
    rw [hstep, filter_orderedInsert p a (sortBy_pairwise l), ← ih]
    by_cases hp : p a
    · rw [if_pos hp, List.filter_cons_of_pos hp]
      rfl
    · rw [if_neg hp, List.filter_cons_of_neg hp]

variable {l' : List α}

theorem sortBy_keys (h : l.Perm l') : (sortBy key l).map key = (sortBy key l').map key := by
  have hperm : ((sortBy key l).map key).Perm ((sortBy key l').map key) :=
    (((sortBy_perm l).trans h).trans (sortBy_perm l').symm).map key
  refine hperm.eq_of_pairwise (fun a b _ _ hab hba => le_antisymm hab hba) ?_ ?_
  · exact List.pairwise_map.mpr (sortBy_pairwise l)
  · exact List.pairwise_map.mpr (sortBy_pairwise l')

theorem filter_append_filter (hsorted : l.Pairwise fun a b => key a ≤ key b) {p : α → Bool}
    (hdown : ∀ a b, key a ≤ key b → p b = true → p a = true) :
    l.filter p ++ l.filter (fun a => !p a) = l := by
  induction l with
  | nil => rfl
  | cons a l ih =>
    have hrest := ih hsorted.of_cons
    by_cases hp : p a
    · rw [List.filter_cons_of_pos hp, List.filter_cons_of_neg (by simp [hp]), List.cons_append, hrest]
    · have hnone : l.filter p = [] := by
        rw [List.filter_eq_nil_iff]
        intro b hb hpb
        exact hp (hdown a b (List.rel_of_pairwise_cons hsorted hb) hpb)
      rw [List.filter_cons_of_neg hp, List.filter_cons_of_pos (by simp [hp]), hnone]
      rw [hnone] at hrest
      exact congrArg (a :: ·) hrest

omit [LinearOrder κ] in
theorem eq_of_keys (hperm : l.Perm l') (hkeys : l.map key = l'.map key)
    (hinj : ∀ a ∈ l, ∀ b ∈ l, key a = key b → a = b) : l = l' := by
  have hlength := hperm.length_eq
  refine List.ext_getElem hlength ?_
  intro i h h'
  have hkey : key l[i] = key l'[i] := by
    have hget := congrArg (·[i]?) hkeys
    simpa [List.getElem?_map, List.getElem?_eq_getElem h, List.getElem?_eq_getElem h'] using hget
  exact hinj _ (List.getElem_mem h) _ (hperm.mem_iff.mpr (List.getElem_mem h')) hkey

end StableSort
end SyncEngine
