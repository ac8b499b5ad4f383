import Mathlib

/-!
# Climbing links

A partial map gives each node at most one node above it.  A walk upwards that is cut off after as many steps as there
are nodes with something above them finds what it looks for wherever the links lead there, cycles or not.  A relation
without cycles stays so when one node is linked to nodes that do not lead to it.
-/

namespace SyncEngine
namespace Climb

open Relation

variable {ι : Type}

/-- The node so many links up. -/
def hop (up : ι → Option ι) : Nat → ι → Option ι
  | 0, a => some a
  | n + 1, a => (up a).bind (hop up n)

/-- Whether a walk of at most so many nodes meets the target. -/
def climbs [DecidableEq ι] (up : ι → Option ι) (target : ι) : Nat → Option ι → Bool
  | 0, _ => false
  | _ + 1, none => false
  | k + 1, some a => if a = target then true else climbs up target k (up a)

section Walk

variable {up : ι → Option ι} {a b target : ι} {m n k : Nat}

theorem hop_add : hop up (m + n) a = (hop up m a).bind (hop up n) := by
  induction m generalizing a with
  | zero =>
    rw [Nat.zero_add]
    rfl
  | succ m ih =>
    rw [Nat.succ_add]
    show (up a).bind (hop up (m + n)) = ((up a).bind (hop up m)).bind (hop up n)
    cases up a with
    | none => rfl
    | some c => exact ih

theorem hop_of_reflTransGen (h : ReflTransGen (fun a b => up a = some b) a b) : ∃ n, hop up n a = some b := by
  induction h using ReflTransGen.head_induction_on with
  | refl => exact ⟨0, rfl⟩
  | head hlink _ ih =>
    obtain ⟨n, hn⟩ := ih
    refine ⟨n + 1, ?_⟩
    show (up _).bind (hop up n) = some b
    rw [hlink]
    exact hn

theorem reflTransGen_of_hop (h : hop up n a = some b) : ReflTransGen (fun a b => up a = some b) a b := by
  induction n generalizing a with
  | zero =>
    cases h
    exact .refl
  | succ n ih =>
    obtain ⟨c, hlink, hrest⟩ := Option.bind_eq_some_iff.mp h
    exact .head hlink (ih hrest)

variable [DecidableEq ι]

theorem climbs_iff : climbs up target k (some a) = true ↔ ∃ n < k, hop up n a = some target := by
  induction k generalizing a with
  | zero => simp [climbs]
  | succ k ih =>
    rw [climbs]
    by_cases hat : a = target
    · rw [if_pos hat]
      exact iff_of_true rfl ⟨0, Nat.succ_pos k, by rw [hat]; rfl⟩
    · rw [if_neg hat]
      have hstep : climbs up target k (up a) = true ↔ ∃ n < k, (up a).bind (hop up n) = some target := by
        cases up a with
        | none => cases k <;> simp [climbs]
        | some b => exact ih
      rw [hstep]
      constructor
      · intro ⟨n, hn, hhop⟩
        exact ⟨n + 1, by omega, hhop⟩
      · intro ⟨n, hn, hhop⟩
        cases n with
        | zero => exact absurd (Option.some.inj hhop) hat
        | succ n => exact ⟨n, by omega, hhop⟩

/-- The shortest way to a node passes no node twice, so it is no longer than the nodes with something above them. -/
theorem shortest_hop {support : List ι} (hsupport : ∀ a b, up a = some b → a ∈ support)
    (h : ∃ n, hop up n a = some target) : ∃ n ≤ support.length, hop up n a = some target := by
  classical
  have hn : hop up (Nat.find h) a = some target := Nat.find_spec h
  have hpassed : ∀ i < Nat.find h, ∃ x ∈ support, hop up i a = some x := by
    intro i hi
    have hsplit := @hop_add ι up a i (Nat.find h - i - 1 + 1)
    rw [show i + (Nat.find h - i - 1 + 1) = Nat.find h by omega, hn] at hsplit
    obtain ⟨x, hx, hrest⟩ := Option.bind_eq_some_iff.mp hsplit.symm
    obtain ⟨y, hlink, -⟩ := Option.bind_eq_some_iff.mp (show (up x).bind (hop up _) = some target from hrest)
    exact ⟨x, hsupport x y hlink, hx⟩
  have hdistinct : ∀ i j, i < j → j < Nat.find h → hop up i a ≠ hop up j a := by
    intro i j hij hj heq
    have hsplit := @hop_add ι up a j (Nat.find h - j)
    rw [show j + (Nat.find h - j) = Nat.find h by omega, hn, ← heq, ← hop_add] at hsplit
    exact Nat.find_min h (show i + (Nat.find h - j) < Nat.find h by omega) hsplit.symm
  have hnodup : ((List.range (Nat.find h)).map fun i => hop up i a).Nodup := by
    refine List.Nodup.map_on (fun i hi j hj heq => ?_) List.nodup_range
    rw [List.mem_range] at hi hj
    rcases Nat.lt_trichotomy i j with hlt | hsame | hgt
    · exact absurd heq (hdistinct i j hlt hj)
    · exact hsame
    · exact absurd heq.symm (hdistinct j i hgt hi)
  have hsubset : ((List.range (Nat.find h)).map fun i => hop up i a) ⊆ support.map some := by
    intro o ho
    obtain ⟨i, hi, rfl⟩ := List.mem_map.mp ho
    obtain ⟨x, hx, hhop⟩ := hpassed i (List.mem_range.mp hi)
    exact List.mem_map.mpr ⟨x, hx, hhop.symm⟩
  have hlength := (hnodup.subperm hsubset).length_le
  rw [List.length_map, List.length_range, List.length_map] at hlength
  exact ⟨Nat.find h, hlength, hn⟩

theorem climbs_iff_reflTransGen {support : List ι} (hsupport : ∀ a b, up a = some b → a ∈ support) :
    climbs up target (support.length + 1) (some a) = true ↔ ReflTransGen (fun a b => up a = some b) a target := by
  rw [climbs_iff]
  constructor
  · rintro ⟨n, -, hn⟩
    exact reflTransGen_of_hop hn
  · intro h
    obtain ⟨n, hle, hn⟩ := shortest_hop hsupport (hop_of_reflTransGen h)
    exact ⟨n, by omega, hn⟩

end Walk

/-! ## Links without cycles -/

def Acyclic (r : ι → ι → Prop) : Prop := ∀ a, ¬ TransGen r a a

section Acyclic

variable {r r' : ι → ι → Prop} {t : ι}

theorem Acyclic.mono (h : Acyclic r) (hle : ∀ a b, r' a b → r a b) : Acyclic r' := fun a hcycle =>
  h a (TransGen.mono hle a a hcycle)

theorem reflTransGen_to {a : ι} (hother : ∀ a b, r' a b → a ≠ t → r a b) (h : ReflTransGen r' a t) :
    ReflTransGen r a t := by
  induction h using ReflTransGen.head_induction_on with
  | refl => exact .refl
  | @head x y hlink _ ih =>
    by_cases hx : x = t
    · rw [hx]
    · exact .head (hother x y hlink hx) ih

/-- A way uses old links only or passes by `t`. -/
theorem transGen_cases {a b : ι} (hother : ∀ a b, r' a b → a ≠ t → r a b) (h : TransGen r' a b) :
    TransGen r a b ∨ ∃ p, ReflTransGen r' a t ∧ r' t p ∧ ReflTransGen r' p b := by
  induction h with
  | @single y hlink =>
    by_cases ha : a = t
    · subst ha
      exact .inr ⟨y, .refl, hlink, .refl⟩
    · exact .inl (.single (hother _ _ hlink ha))
  | @tail x y hway hlink ih =>
    by_cases hx : x = t
    · subst hx
      exact .inr ⟨y, hway.to_reflTransGen, hlink, .refl⟩
    · rcases ih with hold | ⟨p, hto, hp, hfrom⟩
      · exact .inl (hold.tail (hother _ _ hlink hx))
      · exact .inr ⟨p, hto, hp, hfrom.tail hlink⟩

theorem Acyclic.relink (h : Acyclic r) (hother : ∀ a b, r' a b → a ≠ t → r a b)
    (hnew : ∀ p, r' t p → ¬ ReflTransGen r p t) : Acyclic r' := by
  intro a hcycle
  rcases transGen_cases hother hcycle with hold | ⟨p, hto, hp, hfrom⟩
  · exact h a hold
  · exact hnew p hp (reflTransGen_to hother (hfrom.trans hto))

end Acyclic

end Climb
end SyncEngine
