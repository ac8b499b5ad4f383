import Mathlib

/-!
# Words none of which begins another

A text written in such words can be cut in one way only: where one sequence of words is the beginning of the
text of another, it is the beginning of the other sequence.
-/

namespace SyncEngine

variable {α : Type} {W : List α → Prop}

structure PrefixFree (W : List α → Prop) : Prop where
  eq_of_prefix : ∀ x y, W x → W y → x <+: y → x = y
  ne_nil : ∀ x, W x → x ≠ []

theorem PrefixFree.prefix_of_flatten (hW : PrefixFree W) :
    ∀ {xs ys : List (List α)}, (∀ x ∈ xs, W x) → (∀ y ∈ ys, W y) → xs.flatten <+: ys.flatten → xs <+: ys
  | [], ys, _, _, _ => List.nil_prefix
  | x :: xs, [], hxs, _, h => by
    have hnil : (x :: xs).flatten = [] := List.prefix_nil.mp h
    have hx : x = [] := by
      rw [List.flatten_cons] at hnil
      exact (List.append_eq_nil_iff.mp hnil).1
    exact absurd hx (hW.ne_nil x (hxs x List.mem_cons_self))
  | x :: xs, y :: ys, hxs, hys, h => by
    have hx := hxs x List.mem_cons_self
    have hy := hys y List.mem_cons_self
    rw [List.flatten_cons, List.flatten_cons] at h
    -- both words begin the same text, so one begins the other
    have hxin : x <+: y ++ ys.flatten := (List.prefix_append x xs.flatten).trans h
    have hyin : y <+: y ++ ys.flatten := List.prefix_append y ys.flatten
    have heq : x = y := by
      rcases Nat.le_total x.length y.length with hle | hle
      · exact hW.eq_of_prefix x y hx hy (List.prefix_of_prefix_length_le hxin hyin hle)
      · exact (hW.eq_of_prefix y x hy hx (List.prefix_of_prefix_length_le hyin hxin hle)).symm
    subst heq
    have hrest : xs.flatten <+: ys.flatten := (List.prefix_append_right_inj x).mp h
    exact List.cons_prefix_cons.mpr ⟨rfl, hW.prefix_of_flatten
      (fun z hz => hxs z (List.mem_cons_of_mem x hz)) (fun z hz => hys z (List.mem_cons_of_mem x hz)) hrest⟩

theorem mem_of_flatten_bounds {xs ys zs before after : List (List α)} {word : List α} (hne : word ≠ [])
    (h : xs ++ (ys ++ zs) = before ++ word :: after) (hfirst : xs.flatten.length ≤ before.flatten.length)
    (hlast : (before ++ [word]).flatten.length ≤ (xs ++ ys).flatten.length) : word ∈ ys := by
  have hpos : 0 < word.length := List.length_pos_iff.mpr hne
  -- a word in front of the part would begin before it
  have hfront : ∃ c, before = xs ++ c ∧ ys ++ zs = c ++ word :: after := by
    rcases List.append_eq_append_iff.mp h with ⟨c, hc, hrest⟩ | ⟨c, hc, hrest⟩
    · exact ⟨c, hc, hrest⟩
    · cases c with
      | nil => exact ⟨[], by simpa using hc.symm, by simpa using hrest.symm⟩
      | cons u c =>
        obtain ⟨rfl, -⟩ := List.cons.inj hrest
        simp only [hc, List.flatten_append, List.flatten_cons, List.length_append] at hfirst
        omega
  obtain ⟨c, rfl, hc⟩ := hfront
  rw [show c ++ word :: after = (c ++ [word]) ++ after by simp] at hc
  rcases List.append_eq_append_iff.mp hc with ⟨d, hd, -⟩ | ⟨d, hd, -⟩
  · rcases d.eq_nil_or_concat with rfl | ⟨d, u, rfl⟩
    · rw [List.append_nil] at hd
      simp [← hd]
    · -- a word after the part would end after it
      have hcut : c ++ [word] = (ys ++ d) ++ [u] := by simpa using hd
      obtain ⟨rfl, hu⟩ := List.append_inj' hcut rfl
      simp only [List.flatten_append, List.flatten_cons, List.flatten_nil, List.append_nil, List.length_append] at hlast
      omega
  · rw [hd]
    simp

end SyncEngine
