import Mathlib

/-!
# Delimited text

Cutting a text at a pattern, and decimal numbers of a bounded width.
-/

namespace SyncEngine

-- What holds of a list is decided along the list, also where all characters can be gone through.
attribute [instance (high)] List.decidableBAll

/-!
## Where a list is cut

A list has one cut at its only element with a property, and one at its last element with it.
-/

variable {α : Type} {P : α → Prop} {before before' after after' : List α} {x x' : α}

theorem cut_cases (e : before ++ x :: after = before' ++ x' :: after') :
    (before' = before ∧ x' = x ∧ after' = after) ∨ x' ∈ after ∨ x' ∈ before ∧ x ∈ after' := by
  rcases List.append_eq_append_iff.mp e with ⟨gap, rfl, h⟩ | ⟨gap, rfl, h⟩
  · cases gap with
    | nil =>
      simp only [List.nil_append, List.cons.injEq] at h
      exact .inl ⟨List.append_nil before, h.1.symm, h.2.symm⟩
    | cons y gap =>
      simp only [List.cons_append, List.cons.injEq] at h
      exact .inr (.inl (by simp [h.2]))
  · cases gap with
    | nil =>
      simp only [List.nil_append, List.cons.injEq] at h
      exact .inl ⟨(List.append_nil before').symm, h.1, h.2⟩
    | cons y gap =>
      simp only [List.cons_append, List.cons.injEq] at h
      exact .inr (.inr ⟨by simp [h.1], by simp [h.2]⟩)

theorem cut_at_only (e : before ++ x :: after = before' ++ x' :: after') (hx' : P x')
    (hbefore : ∀ y ∈ before, ¬P y) (hafter : ∀ y ∈ after, ¬P y) :
    before' = before ∧ x' = x ∧ after' = after := by
  rcases cut_cases e with h | h | ⟨h, -⟩
  · exact h
  · exact absurd hx' (hafter x' h)
  · exact absurd hx' (hbefore x' h)

theorem cut_at_last (e : before ++ x :: after = before' ++ x' :: after') (hx : P x) (hx' : P x')
    (hafter : ∀ y ∈ after, ¬P y) (hafter' : ∀ y ∈ after', ¬P y) :
    before' = before ∧ x' = x ∧ after' = after := by
  rcases cut_cases e with h | h | ⟨-, h⟩
  · exact h
  · exact absurd hx' (hafter x' h)
  · exact absurd hx (hafter' x h)

end SyncEngine

namespace SyncEngine

section Cut

variable {α : Type} [DecidableEq α]

def stripFront (pattern text : List α) : Option (List α) :=
  if pattern <+: text then some (text.drop pattern.length) else none

def stripBack (pattern text : List α) : Option (List α) :=
  if pattern <:+ text then some (text.take (text.length - pattern.length)) else none

def splitAtFirst (pattern : List α) : List α → Option (List α × List α)
  | [] => (stripFront pattern []).map fun after => ([], after)
  | c :: rest =>
    match stripFront pattern (c :: rest) with
    | some after => some ([], after)
    | none => (splitAtFirst pattern rest).map fun (before, after) => (c :: before, after)

variable {pattern text before after : List α} {c : α}

theorem stripFront_eq_some_iff : stripFront pattern text = some after ↔ text = pattern ++ after := by
  unfold stripFront
  constructor
  · intro h
    split_ifs at h with hpre
    obtain ⟨rest, rfl⟩ := hpre
    rw [List.drop_left] at h
    rw [Option.some.inj h]
  · intro h
    rw [h, if_pos (List.prefix_append _ _), List.drop_left]

theorem stripBack_append (text pattern : List α) : stripBack pattern (text ++ pattern) = some text := by
  unfold stripBack
  rw [if_pos (List.suffix_append _ _), List.length_append, Nat.add_sub_cancel, List.take_left]

theorem eq_append_of_stripBack (h : stripBack pattern text = some before) : text = before ++ pattern := by
  unfold stripBack at h
  split at h
  · rename_i hback
    obtain ⟨front, rfl⟩ := hback
    rw [List.length_append, Nat.add_sub_cancel, List.take_left] at h
    rw [Option.some.inj h]
  · exact nomatch h

theorem stripBack_none (h : text.getLast? ≠ some c) : stripBack [c] text = none := by
  unfold stripBack
  rw [if_neg]
  rintro ⟨front, rfl⟩
  exact h List.getLast?_concat

theorem stripFront_ne {d : α} {rest : List α} (h : d ≠ c) : stripFront (c :: rest) (d :: text) = none := by
  unfold stripFront
  exact if_neg fun hfront => h (List.cons_prefix_cons.mp hfront).1.symm

theorem splitAtFirst_eq_some_iff :
    splitAtFirst [c] text = some (before, after) ↔ text = before ++ c :: after ∧ ∀ d ∈ before, d ≠ c := by
  induction text generalizing before with
  | nil =>
    constructor
    · intro h
      cases h
    · rintro ⟨h, -⟩
      exact absurd h.symm (List.append_ne_nil_of_right_ne_nil _ (List.cons_ne_nil _ _))
  | cons x text ih =>
    rw [splitAtFirst]
    by_cases hx : x = c
    · subst hx
      rw [stripFront_eq_some_iff.mpr (show x :: text = [x] ++ text from rfl)]
      constructor
      · intro h
        cases h
        exact ⟨rfl, fun d hd => nomatch hd⟩
      · intro ⟨h, hbefore⟩
        cases before with
        | nil =>
          cases h
          rfl
        | cons d before =>
          cases h
          exact absurd rfl (hbefore x List.mem_cons_self)
    · rw [stripFront_ne hx]
      constructor
      · intro h
        obtain ⟨⟨first, rest⟩, hsplit, heq⟩ := Option.map_eq_some_iff.mp h
        cases heq
        obtain ⟨rfl, hfirst⟩ := ih.mp hsplit
        exact ⟨rfl, List.forall_mem_cons.mpr ⟨hx, hfirst⟩⟩
      · intro ⟨h, hbefore⟩
        cases before with
        | nil =>
          cases h
          exact absurd rfl hx
        | cons d before =>
          cases h
          rw [ih.mpr ⟨rfl, fun e he => hbefore e (List.mem_cons_of_mem x he)⟩]
          rfl

theorem cut_at_first {before' after' : List α} (e : before ++ c :: after = before' ++ c :: after') (h : c ∉ before)
    (h' : c ∉ before') : before = before' ∧ after = after' := by
  have hne : ∀ {text : List α}, c ∉ text → ∀ d ∈ text, d ≠ c := fun hno d hd he => hno (he ▸ hd)
  have hfirst : splitAtFirst [c] (before ++ c :: after) = some (before, after) :=
    splitAtFirst_eq_some_iff.mpr ⟨rfl, hne h⟩
  have hsecond : splitAtFirst [c] (before ++ c :: after) = some (before', after') :=
    splitAtFirst_eq_some_iff.mpr ⟨e, hne h'⟩
  exact Prod.mk.inj (Option.some.inj (hfirst.symm.trans hsecond))

theorem splitAtFirst_eq_none (h : ∀ d ∈ text, d ≠ c) : splitAtFirst [c] text = none := by
  by_contra hsome
  obtain ⟨⟨before, after⟩, hsplit⟩ := Option.ne_none_iff_exists'.mp hsome
  obtain ⟨rfl, -⟩ := splitAtFirst_eq_some_iff.mp hsplit
  exact h c (List.mem_append_right _ List.mem_cons_self) rfl

theorem stripFront_eq_none_of_notMem {rest : List α} (h : c ∉ text) : stripFront (c :: rest) text = none := by
  unfold stripFront
  exact if_neg fun hfront => h (hfront.subset List.mem_cons_self)

theorem splitAtFirst_append {rest : List α} (h : c ∉ before) :
    splitAtFirst (c :: rest) (before ++ (c :: rest) ++ after) = some (before, after) := by
  induction before with
  | nil =>
    have hfront : stripFront (c :: rest) (c :: (rest ++ after)) = some after := stripFront_eq_some_iff.mpr rfl
    show splitAtFirst (c :: rest) (c :: (rest ++ after)) = _
    unfold splitAtFirst
    rw [hfront]
  | cons d before ih =>
    have hne : d ≠ c := fun he => h (he ▸ List.mem_cons_self)
    have hbefore : c ∉ before := fun hmem => h (List.mem_cons_of_mem d hmem)
    have hfront : stripFront (c :: rest) (d :: (before ++ (c :: rest) ++ after)) = none := stripFront_ne hne
    show splitAtFirst (c :: rest) (d :: (before ++ (c :: rest) ++ after)) = _
    unfold splitAtFirst
    rw [hfront, ih hbefore]
    rfl

theorem splitAtFirst_pair {m : α} (hne : m ≠ c) (h : m ∉ before) :
    splitAtFirst [c, m] (before ++ [c, m] ++ after) = some (before, after) := by
  induction before with
  | nil =>
    have hfront : stripFront [c, m] (c :: m :: after) = some after := stripFront_eq_some_iff.mpr rfl
    show splitAtFirst [c, m] (c :: m :: after) = _
    unfold splitAtFirst
    rw [hfront]
  | cons d before ih =>
    have hbefore : m ∉ before := fun hmem => h (List.mem_cons_of_mem d hmem)
    have hfront : stripFront [c, m] (d :: (before ++ [c, m] ++ after)) = none := by
      unfold stripFront
      refine if_neg fun hpre => ?_
      have hrest := (List.cons_prefix_cons.mp hpre).2
      cases before with
      | nil => exact hne (List.cons_prefix_cons.mp hrest).1
      | cons e before => exact hbefore ((List.cons_prefix_cons.mp hrest).1 ▸ List.mem_cons_self)
    show splitAtFirst [c, m] (d :: (before ++ [c, m] ++ after)) = _
    unfold splitAtFirst
    rw [hfront, ih hbefore]
    rfl

theorem splitAtFirst_pair_none {m : α} (h : m ∉ text) : splitAtFirst [c, m] text = none := by
  induction text with
  | nil => rfl
  | cons d text ih =>
    have hfront : stripFront [c, m] (d :: text) = none := by
      unfold stripFront
      exact if_neg fun hpre => h (hpre.subset (List.mem_cons_of_mem c List.mem_cons_self))
    unfold splitAtFirst
    rw [hfront, ih fun hmem => h (List.mem_cons_of_mem d hmem)]
    rfl

end Cut

/-- A decimal number of at most `bits` bits, with or without a plus sign before it. -/
def parseUnsigned (bits : Nat) (text : List Char) : Option Nat :=
  let digits := (stripFront ['+'] text).getD text
  if digits = [] ∨ ¬digits.all Char.isDigit then none
  else
    let n := Nat.ofDigitChars 10 digits 0
    if n < 2 ^ bits then some n else none

def decimal (n : Nat) : List Char := Nat.toDigits 10 n

theorem decimal_injective : Function.Injective decimal := by
  intro a b h
  have ha : Nat.ofDigitChars 10 (decimal a) 0 = a := Nat.ofDigitChars_ten_toDigits
  have hb : Nat.ofDigitChars 10 (decimal b) 0 = b := Nat.ofDigitChars_ten_toDigits
  rw [← ha, h, hb]

end SyncEngine
