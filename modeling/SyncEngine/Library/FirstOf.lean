import Mathlib

/-!
# The first members of a set

`FirstOf count T l` says that `l` lists, in ascending order, the first `count` members of `T`, or all of
them where `count` is `none` or there are no more.
-/

namespace SyncEngine

variable {α : Type} [LinearOrder α]

structure FirstOf (count : Option Nat) (T : α → Prop) (l : List α) : Prop where
  sorted : l.Pairwise (· < ·)
  mem : ∀ a ∈ l, T a
  most : ∀ c, count = some c → l.length ≤ c
  rest : ∀ a, T a → a ∉ l → count = some l.length ∧ ∀ b ∈ l, b < a

/-- A member with fewer than `count` members before it. -/
def AmongFirst (count : Option Nat) (T : α → Prop) (a : α) : Prop :=
  T a ∧ ∀ c : Nat, count = some c → {b | T b ∧ b < a}.encard < c

theorem amongFirst_upTo_iff {count : Option Nat} {T : α → Prop} {bound a : α} :
    AmongFirst count (fun b => T b ∧ b ≤ bound) a ↔ AmongFirst count T a ∧ a ≤ bound := by
  have hsame : a ≤ bound → {b | (T b ∧ b ≤ bound) ∧ b < a} = {b | T b ∧ b < a} := by
    intro hle
    ext b
    constructor
    · exact fun hb => ⟨hb.1.1, hb.2⟩
    · exact fun hb => ⟨⟨hb.1, le_of_lt (lt_of_lt_of_le hb.2 hle)⟩, hb.2⟩
  constructor
  · rintro ⟨⟨hT, hle⟩, hfew⟩
    rw [hsame hle] at hfew
    exact ⟨⟨hT, hfew⟩, hle⟩
  · rintro ⟨⟨hT, hfew⟩, hle⟩
    refine ⟨⟨hT, hle⟩, ?_⟩
    rw [hsame hle]
    exact hfew

theorem AmongFirst.congr_iff {count : Option Nat} {A B : α → Prop} (h : ∀ a, A a ↔ B a) {a : α} :
    AmongFirst count A a ↔ AmongFirst count B a := by
  have heq : A = B := funext fun b => propext (h b)
  rw [heq]

namespace FirstOf

variable {count : Option Nat} {T A B : α → Prop} {l l' : List α}

theorem nodup (h : FirstOf count T l) : l.Nodup := h.sorted.imp fun hlt => ne_of_lt hlt

theorem subset (h : FirstOf count T l) (h' : FirstOf count T l') : l ⊆ l' := by
  intro a ha
  by_contra hnot
  obtain ⟨hcount, hbefore⟩ := h'.rest a (h.mem a ha) hnot
  have hsub : a :: l' ⊆ l := by
    intro b hb
    rcases List.mem_cons.mp hb with rfl | hb
    · exact ha
    · by_contra hb'
      exact lt_asymm (hbefore b hb) ((h.rest b (h'.mem b hb) hb').2 a ha)
  have hlength := (List.subperm_of_subset (List.nodup_cons.mpr ⟨hnot, h'.nodup⟩) hsub).length_le
  have hmost := h.most _ hcount
  rw [List.length_cons] at hlength
  omega

theorem unique (h : FirstOf count T l) (h' : FirstOf count T l') : l = l' := by
  have hperm : l.Perm l' := (List.subperm_of_subset h.nodup (h.subset h')).antisymm
      (List.subperm_of_subset h'.nodup (h'.subset h))
  exact hperm.eq_of_pairwise (fun a b _ _ hab hba => absurd hab (lt_asymm hba)) h.sorted h'.sorted

theorem congr (h : FirstOf count A l) (hiff : ∀ a, A a ↔ B a) : FirstOf count B l where
  sorted := h.sorted
  mem a ha := (hiff a).mp (h.mem a ha)
  most := h.most
  rest a ha := h.rest a ((hiff a).mpr ha)

/-- The first members of a set are those of a smaller one just when they all belong to it. -/
theorem eq_iff_of_subset (hA : FirstOf count A l) (hB : FirstOf count B l') (hsub : ∀ a, A a → B a) :
    l = l' ↔ ∀ b ∈ l', A b := by
  constructor
  · rintro rfl
    exact hA.mem
  · intro hall
    refine hA.unique ⟨hB.sorted, hall, hB.most, ?_⟩
    intro a ha
    exact hB.rest a (hsub a ha)

theorem mem_iff (h : FirstOf count T l) {a : α} : a ∈ l ↔ AmongFirst count T a := by
  constructor
  · intro ha
    refine ⟨h.mem a ha, ?_⟩
    intro c hc
    have hsub : {b | T b ∧ b < a} ⊆ ↑(l.toFinset.erase a) := by
      rintro b ⟨hb, hlt⟩
      rw [Finset.mem_coe, Finset.mem_erase, List.mem_toFinset]
      refine ⟨ne_of_lt hlt, ?_⟩
      by_contra hnot
      exact lt_asymm hlt ((h.rest b hb hnot).2 a ha)
    have hcard : (l.toFinset.erase a).card < c := by
      rw [Finset.card_erase_of_mem (List.mem_toFinset.mpr ha), List.toFinset_card_of_nodup h.nodup]
      have hmost := h.most c hc
      have hpos := List.length_pos_of_mem ha
      omega
    calc {b | T b ∧ b < a}.encard ≤ (↑(l.toFinset.erase a) : Set α).encard := Set.encard_le_encard hsub
      _ = ((l.toFinset.erase a).card : ℕ∞) := Set.encard_coe_eq_coe_finsetCard _
      _ < c := by exact_mod_cast hcard
  · rintro ⟨hT, hfew⟩
    by_contra hnot
    obtain ⟨hcount, hbefore⟩ := h.rest a hT hnot
    have hsub : (↑l.toFinset : Set α) ⊆ {b | T b ∧ b < a} := by
      intro b hb
      have hb' : b ∈ l := by rwa [Finset.mem_coe, List.mem_toFinset] at hb
      exact ⟨h.mem b hb', hbefore b hb'⟩
    have hle := Set.encard_le_encard hsub
    rw [Set.encard_coe_eq_coe_finsetCard, List.toFinset_card_of_nodup h.nodup] at hle
    exact absurd (lt_of_le_of_lt hle (hfew _ hcount)) (lt_irrefl _)

theorem all (s : Finset α) : FirstOf none (· ∈ s) (s.sort (· ≤ ·)) where
  sorted := s.sortedLT_sort.pairwise
  mem _ ha := (Finset.mem_sort _).mp ha
  most _ hc := nomatch hc
  rest _ ha hnot := absurd ((Finset.mem_sort _).mpr ha) hnot

theorem filter (h : FirstOf none T l) (p : α → Bool) : FirstOf none (fun a => T a ∧ p a = true) (l.filter p) where
  sorted := h.sorted.sublist List.filter_sublist
  mem a ha := ⟨h.mem a (List.mem_filter.mp ha).1, (List.mem_filter.mp ha).2⟩
  most _ hc := nomatch hc
  rest a ha hnot := by
    have hout : a ∉ l := fun hin => hnot (List.mem_filter.mpr ⟨hin, ha.2⟩)
    exact nomatch (h.rest a ha.1 hout).1

theorem take (h : FirstOf none T l) (c : Nat) : FirstOf (some c) T (l.take c) where
  sorted := h.sorted.sublist (List.take_sublist _ _)
  mem a ha := h.mem a (List.mem_of_mem_take ha)
  most d hd := by
    rw [← Option.some.inj hd]
    exact List.length_take_le _ _
  rest a ha hnot := by
    have hmem : a ∈ l := by
      by_contra hno
      exact nomatch (h.rest a ha hno).1
    rw [← List.take_append_drop c l] at hmem
    have hdrop : a ∈ l.drop c := (List.mem_append.mp hmem).resolve_left hnot
    have hlength : c < l.length := by
      by_contra hge
      rw [List.drop_eq_nil_of_le (by omega)] at hdrop
      exact List.not_mem_nil hdrop
    refine ⟨?_, ?_⟩
    · rw [List.length_take, min_eq_left (by omega)]
    · intro b hb
      have hsorted := h.sorted
      rw [← List.take_append_drop c l, List.pairwise_append] at hsorted
      exact hsorted.2.2 b hb a hdrop

theorem exists_of_finite (count : Option Nat) (hfinite : {a | T a}.Finite) : ∃ l, FirstOf count T l := by
  have hall : FirstOf none T (hfinite.toFinset.sort (· ≤ ·)) := (all hfinite.toFinset).congr fun a => hfinite.mem_toFinset
  cases count with
  | none => exact ⟨_, hall⟩
  | some c => exact ⟨_, hall.take c⟩

theorem iff_of_subset (hA : FirstOf count A l) (hsub : ∀ a, A a → B a) (hfinite : {a | B a}.Finite) :
    FirstOf count B l ↔ ∀ b, AmongFirst count B b → A b := by
  obtain ⟨l', hB⟩ := exists_of_finite count hfinite
  have heq := hA.eq_iff_of_subset hB hsub
  constructor
  · intro h b hb
    exact hA.mem b (h.mem_iff.mpr hb)
  · intro h
    rw [heq.mpr fun b hb => h b (hB.mem_iff.mp hb)]
    exact hB

end FirstOf

/-- A finite set and a part of it have the same first members just when those of the set are in the part. -/
theorem amongFirst_iff_of_subset {count : Option Nat} {A B : α → Prop} (hsub : ∀ a, A a → B a)
    (hfinite : {a | B a}.Finite) :
    (∀ a, AmongFirst count A a ↔ AmongFirst count B a) ↔ ∀ a, AmongFirst count B a → A a := by
  obtain ⟨l, hA⟩ := FirstOf.exists_of_finite count (hfinite.subset hsub)
  obtain ⟨l', hB⟩ := FirstOf.exists_of_finite count hfinite
  constructor
  · exact fun h a ha => ((h a).mpr ha).1
  · intro h a
    have heq := (hA.eq_iff_of_subset hB hsub).mpr fun b hb => h b (hB.mem_iff.mp hb)
    rw [← hA.mem_iff, ← hB.mem_iff, heq]

end SyncEngine
