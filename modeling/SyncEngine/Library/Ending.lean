import Mathlib

/-!
# Loops that end

A loop takes one answer at a time and either goes on in a new state or ends with a result.  What answers it is a
sequence, and every sequence is allowed, so a statement over all sequences is one over everything that may answer.
-/

namespace SyncEngine

section Loop

variable {σ ε β : Type}

/-- The state after `k` answers, or the result, once there is one. -/
def after (step : σ → ε → σ ⊕ β) (answers : ℕ → ε) (start : σ ⊕ β) : ℕ → σ ⊕ β
  | 0 => start
  | k + 1 =>
    match after step answers start k with
    | .inl s => step s (answers k)
    | .inr b => .inr b

/-- A result is reached after finitely many answers. -/
def Ends (step : σ → ε → σ ⊕ β) (answers : ℕ → ε) (start : σ ⊕ β) : Prop :=
  ∃ k b, after step answers start k = .inr b

variable {step : σ → ε → σ ⊕ β} {answers : ℕ → ε} {start : σ ⊕ β} {k : ℕ} {s s' : σ} {b : β}

theorem after_succ_of_state (h : after step answers start k = .inl s) :
    after step answers start (k + 1) = step s (answers k) := by
  show (match after step answers start k with
    | .inl s => step s (answers k)
    | .inr b => .inr b) = _
  rw [h]

theorem ended_after (h : after step answers start k = .inr b) (d : ℕ) : after step answers start (k + d) = .inr b := by
  induction d with
  | zero => exact h
  | succ d ih =>
    show (match after step answers start (k + d) with
      | .inl s => step s (answers (k + d))
      | .inr b => .inr b) = _
    rw [ih]

theorem ended_of_le {j : ℕ} (h : after step answers start k = .inr b) (hle : k ≤ j) : after step answers start j = .inr b := by
  obtain ⟨d, rfl⟩ := Nat.exists_eq_add_of_le hle
  exact ended_after h d

/-- Something that is so of every state from some answer on. -/
def Eventually (step : σ → ε → σ ⊕ β) (answers : ℕ → ε) (start : σ ⊕ β) (p : ℕ → σ → Prop) : Prop :=
  ∃ K, ∀ k s, K ≤ k → after step answers start k = .inl s → p k s

theorem Ends.eventually (h : Ends step answers start) (p : ℕ → σ → Prop) : Eventually step answers start p := by
  obtain ⟨k, b, hk⟩ := h
  refine ⟨k, fun j s hle hj => ?_⟩
  rw [ended_of_le hk hle] at hj
  exact nomatch hj

theorem ends_of_eventually {μ : Type} {rel : μ → μ → Prop} (hwf : WellFounded rel) (m : ℕ → σ → μ)
    (h : Eventually step answers start fun k s => ∀ s', step s (answers k) = .inl s' → rel (m (k + 1) s') (m k s)) :
    Ends step answers start := by
  obtain ⟨K, hstep⟩ := h
  have hfrom : ∀ x k s, K ≤ k → after step answers start k = .inl s → m k s = x → Ends step answers start := by
    intro x
    induction x using hwf.induction with
    | _ x ih =>
      intro k s hle hk hx
      cases hnext : step s (answers k) with
      | inl s' =>
        have hsucc : after step answers start (k + 1) = .inl s' := (after_succ_of_state hk).trans hnext
        exact ih _ (hx ▸ hstep k s hle hk s' hnext) (k + 1) s' (by omega) hsucc rfl
      | inr b => exact ⟨k + 1, b, (after_succ_of_state hk).trans hnext⟩
  cases hK : after step answers start K with
  | inl s => exact hfrom _ K s le_rfl hK rfl
  | inr b => exact ⟨K, b, hK⟩

end Loop

/-! ## Values not taken yet -/

section Fresh

variable {α : Type} [DecidableEq α]

/-- The members of a finite set that a sequence has not taken up to `k`. -/
def untaken (all : Finset α) (v : ℕ → Option α) (k : ℕ) : Finset α := all.filter fun a => ∀ j ≤ k, v j ≠ some a

theorem card_untaken_lt {all : Finset α} {v : ℕ → Option α} {k : ℕ} {a : α} (ha : a ∈ all)
    (hnew : ∀ j ≤ k, v j ≠ some a) (hnext : v (k + 1) = some a) :
    (untaken all v (k + 1)).card < (untaken all v k).card := by
  apply Finset.card_lt_card
  rw [Finset.ssubset_iff_of_subset]
  · refine ⟨a, Finset.mem_filter.mpr ⟨ha, hnew⟩, ?_⟩
    intro hmem
    exact (Finset.mem_filter.mp hmem).2 (k + 1) le_rfl hnext
  · intro b hb
    obtain ⟨hball, hbnew⟩ := Finset.mem_filter.mp hb
    exact Finset.mem_filter.mpr ⟨hball, fun j hj => hbnew j (by omega)⟩

end Fresh

end SyncEngine
