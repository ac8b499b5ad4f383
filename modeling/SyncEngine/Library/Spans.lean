import Mathlib

/-!
# Spans of numbers

A span has both its ends.  A range cut into spans of one width, from either end, has the numbers it had, each in one of
them.
-/

namespace SyncEngine

abbrev Span := Nat × Nat

namespace Span

/-- The numbers of a span, in order. -/
def members (s : Span) : List Nat := List.range' s.1 (s.2 + 1 - s.1)

variable {a b c low high step count floor n : Nat} {s : Span}

theorem mem_members : n ∈ s.members ↔ s.1 ≤ n ∧ n ≤ s.2 := by
  show n ∈ List.range' s.1 (s.2 + 1 - s.1) ↔ _
  rw [List.mem_range'_1]
  omega

theorem length_members (s : Span) : s.members.length = s.2 + 1 - s.1 := List.length_range'

theorem members_single (n : Nat) : members (n, n) = [n] := by
  show List.range' n (n + 1 - n) = [n]
  rw [Nat.add_sub_cancel_left]
  rfl

theorem members_append (hab : a ≤ b + 1) (hbc : b ≤ c) : members (a, b) ++ members (b + 1, c) = members (a, c) := by
  have hcount : c + 1 - a = (b + 1 - a) + (c + 1 - (b + 1)) := by omega
  have hnext : b + 1 = a + (b + 1 - a) := by omega
  show List.range' a (b + 1 - a) ++ List.range' (b + 1) (c + 1 - (b + 1)) = List.range' a (c + 1 - a)
  rw [hcount, ← List.range'_append_1, ← hnext]

/-! ## Going up -/

/-- Spans of a width from `low` on, the last of them cut off below `high`. -/
def upTo (high step : Nat) (start : Nat) : Span := (start, min (start + step - 1) (high - 1))

theorem flatMap_upTo (hstep : 0 < step) (hhigh : 0 < high) (h : high ≤ low + count * step) :
    ((List.range' low count step).flatMap fun start => members (upTo high step start)) =
      List.range' low (high - low) := by
  induction count generalizing low with
  | zero =>
    have hnone : high - low = 0 := by omega
    rw [hnone]
    rfl
  | succ count ih =>
    have hrest : high ≤ low + step + count * step := by
      rw [Nat.succ_mul] at h
      omega
    rw [List.range'_succ, List.flatMap_cons, ih hrest]
    show List.range' low (min (low + step - 1) (high - 1) + 1 - low) ++ _ = _
    by_cases hlast : high ≤ low + step
    · have hnone : high - (low + step) = 0 := by omega
      have hall : min (low + step - 1) (high - 1) + 1 - low = high - low := by omega
      rw [hnone, hall, List.range'_zero, List.append_nil]
    · have hfirst : min (low + step - 1) (high - 1) + 1 - low = step := by omega
      have hcount : high - low = step + (high - (low + step)) := by omega
      rw [hfirst, hcount, ← List.range'_append_1]

/-- How many spans of a width a range takes. -/
def countUp (low high step : Nat) : Nat := (high - low + (step - 1)) / step

theorem countUp_spec (hstep : 0 < step) :
    (∀ i < countUp low high step, low + i * step < high) ∧ high ≤ low + countUp low high step * step := by
  constructor
  · intro i hi
    have hmul : (i + 1) * step ≤ high - low + (step - 1) := (Nat.le_div_iff_mul_le hstep).mp hi
    rw [Nat.succ_mul] at hmul
    omega
  · have hmod := Nat.div_add_mod (high - low + (step - 1)) step
    have hlt := Nat.mod_lt (high - low + (step - 1)) hstep
    rw [Nat.mul_comm] at hmod
    show high ≤ low + (high - low + (step - 1)) / step * step
    omega

end Span
end SyncEngine
