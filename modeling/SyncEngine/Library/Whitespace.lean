import Mathlib

/-!
# Unicode white space

The characters with the `White_Space` property, and a text without those at its ends.
-/

namespace SyncEngine

def isWhiteSpace (c : Char) : Bool :=
  let n := c.toNat
  (9 ≤ n && n ≤ 13) || n == 0x20 || n == 0x85 || n == 0xA0 || n == 0x1680 ||
    (0x2000 ≤ n && n ≤ 0x200A) || n == 0x2028 || n == 0x2029 || n == 0x202F || n == 0x205F ||
    n == 0x3000

def trimEndChars (cs : List Char) : List Char :=
  (cs.reverse.dropWhile isWhiteSpace).reverse

def trimChars (cs : List Char) : List Char :=
  ((cs.dropWhile isWhiteSpace).reverse.dropWhile isWhiteSpace).reverse

def trimText (s : String) : String := String.ofList (trimChars s.toList)

/-- The words of a text: its longest runs without white space. -/
def splitWhiteSpace (cs : List Char) : List (List Char) :=
  (cs.splitOnP isWhiteSpace).filter fun w => !w.isEmpty

/-!
## Trimmed texts

A text is trimmed where it neither begins nor ends with white space.  Trimming makes it so and leaves it so, and
trimmed texts put together around a character that is not white space are trimmed.
-/

def Trimmed (s : List Char) : Prop :=
  (∀ c ∈ s.head?, isWhiteSpace c = false) ∧ ∀ c ∈ s.getLast?, isWhiteSpace c = false

section Trimmed

variable {s t : List Char} {p : Char → Bool}

theorem dropWhile_of_head (h : ∀ c ∈ s.head?, p c = false) : s.dropWhile p = s := by
  cases s with
  | nil => rfl
  | cons c s =>
    rw [List.dropWhile_cons, if_neg]
    rw [h c rfl]
    decide

theorem head_dropWhile {c : Char} (h : c ∈ (s.dropWhile p).head?) : p c = false := by
  induction s with
  | nil => cases h
  | cons d s ih =>
    rw [List.dropWhile_cons] at h
    by_cases hd : p d = true
    · rw [if_pos hd] at h
      exact ih h
    · rw [if_neg hd] at h
      cases h
      simpa using hd

theorem trimChars_of_trimmed (h : Trimmed s) : trimChars s = s := by
  unfold trimChars
  rw [dropWhile_of_head h.1, dropWhile_of_head fun c hc => h.2 c (by rwa [List.head?_reverse] at hc),
    List.reverse_reverse]

theorem trimmed_trimChars : Trimmed (trimChars s) := by
  refine ⟨fun c hc => ?_, fun c hc => ?_⟩
  · -- what is left after the end is trimmed begins as it did before
    have hfront : trimChars s <+: s.dropWhile isWhiteSpace := by
      have hback := List.dropWhile_suffix isWhiteSpace (l := (s.dropWhile isWhiteSpace).reverse)
      have hstart := List.reverse_prefix.mpr hback
      rwa [List.reverse_reverse] at hstart
    obtain ⟨rest, hrest⟩ := hfront
    refine @head_dropWhile s isWhiteSpace c ?_
    rw [← hrest, List.head?_append, Option.mem_def.mp hc]
    rfl
  · unfold trimChars at hc
    rw [List.getLast?_reverse] at hc
    exact head_dropWhile hc

theorem trimmed_of_forall (h : ∀ c ∈ s, isWhiteSpace c = false) : Trimmed s :=
  ⟨fun c hc => h c (List.mem_of_mem_head? hc), fun c hc => h c (List.mem_of_mem_getLast? hc)⟩

theorem trimmed_append_cons {c : Char} (hc : isWhiteSpace c = false) (hs : Trimmed s) (ht : Trimmed t) :
    Trimmed (s ++ c :: t) := by
  refine ⟨fun d hd => ?_, fun d hd => ?_⟩
  · cases s with
    | nil =>
      cases hd
      exact hc
    | cons e s => exact hs.1 d hd
  · rw [List.getLast?_append, List.getLast?_cons] at hd
    cases hlast : t.getLast? with
    | none =>
      rw [hlast] at hd
      cases hd
      exact hc
    | some e =>
      rw [hlast] at hd
      cases hd
      exact ht.2 e hlast

theorem trimmed_intercalate {c : Char} (hc : isWhiteSpace c = false) {l : List (List Char)}
    (h : ∀ s ∈ l, Trimmed s) : Trimmed ([c].intercalate l) := by
  induction l with
  | nil => exact trimmed_of_forall fun d hd => nomatch hd
  | cons s l ih =>
    cases l with
    | nil =>
      rw [List.intercalate_singleton]
      exact h s List.mem_cons_self
    | cons t l =>
      have hrest := ih fun x hx => h x (List.mem_cons_of_mem s hx)
      rw [List.intercalate_cons_cons, List.append_assoc, List.singleton_append]
      exact trimmed_append_cons hc (h s List.mem_cons_self) hrest

theorem mem_of_mem_trimChars {c : Char} (h : c ∈ trimChars s) : c ∈ s := by
  unfold trimChars at h
  have hback := (List.dropWhile_sublist isWhiteSpace).mem (List.mem_reverse.mp h)
  exact (List.dropWhile_sublist isWhiteSpace).mem (List.mem_reverse.mp hback)

end Trimmed

/-! ## Words -/

section Words

variable {word rest : List Char} {c : Char}

theorem splitWhiteSpace_cons (hne : word ≠ []) (hword : ∀ d ∈ word, isWhiteSpace d = false) (hc : isWhiteSpace c = true)
    (rest : List Char) : splitWhiteSpace (word ++ c :: rest) = word :: splitWhiteSpace rest := by
  unfold splitWhiteSpace
  rw [List.splitOnP_append_cons_of_forall_mem hword c hc, List.filter_cons_of_pos]
  simpa using hne

theorem splitWhiteSpace_space (hc : isWhiteSpace c = true) (rest : List Char) :
    splitWhiteSpace (c :: rest) = splitWhiteSpace rest := by
  have hnone : ∀ d ∈ ([] : List Char), isWhiteSpace d = false := fun d hd => nomatch hd
  have hsplit := List.splitOnP_append_cons_of_forall_mem hnone c hc rest
  unfold splitWhiteSpace
  rw [List.nil_append] at hsplit
  rw [hsplit, List.filter_cons_of_neg]
  simp

theorem splitWhiteSpace_blank (h : ∀ d ∈ rest, isWhiteSpace d = true) : splitWhiteSpace rest = [] := by
  induction rest with
  | nil => rfl
  | cons d rest ih =>
    obtain ⟨hd, hrest⟩ := List.forall_mem_cons.mp h
    rw [splitWhiteSpace_space hd, ih hrest]

theorem splitWhiteSpace_last (hne : word ≠ []) (hword : ∀ d ∈ word, isWhiteSpace d = false)
    (hrest : ∀ d ∈ rest, isWhiteSpace d = true) : splitWhiteSpace (word ++ rest) = [word] := by
  cases rest with
  | nil =>
    rw [List.append_nil]
    unfold splitWhiteSpace
    rw [List.splitOnP_eq_singleton hword, List.filter_cons_of_pos (by simpa using hne)]
    rfl
  | cons d rest =>
    obtain ⟨hd, hrest⟩ := List.forall_mem_cons.mp hrest
    rw [splitWhiteSpace_cons hne hword hd, splitWhiteSpace_blank hrest]

end Words

end SyncEngine
