import SyncEngine.Library.Padded

/-!
# Lower case

A text is put into lower case character by character from a table, but for a capital sigma, which has another
form where it closes a word.  Whether it does is seen from what stands around it.  A blank and digits at the end
of a text stay as they are.
-/

namespace SyncEngine

/-- What the Unicode tables say of a character. -/
structure CaseTable where
  lower : Char → List Char
  cased : Char → Bool
  caseIgnorable : Char → Bool
  /-- In ASCII only the capital letters change. -/
  lower_ascii : ∀ c, c.toNat < 128 → lower c = [c.toLower]

namespace CaseTable

variable (table : CaseTable)

def ignorableThenCased (l : List Char) : Bool :=
  match l.dropWhile table.caseIgnorable with
  | c :: _ => table.cased c
  | [] => false

/-- The form of a capital sigma, with what stands before it (backwards) and after it. -/
def lowerSigma (before after : List Char) : Char :=
  if table.ignorableThenCased before && !table.ignorableThenCased after then 'ς' else 'σ'

def lowercaseAfter (before : List Char) : List Char → List Char
  | [] => []
  | c :: rest =>
    (if c = 'Σ' then [table.lowerSigma before rest] else table.lower c) ++ lowercaseAfter (c :: before) rest

def toLowercase (s : List Char) : List Char := table.lowercaseAfter [] s

variable {table}

theorem lowercaseAfter_append (before s t : List Char) :
    ∃ first, table.lowercaseAfter before (s ++ t) = first ++ table.lowercaseAfter (s.reverse ++ before) t := by
  induction s generalizing before with
  | nil => exact ⟨[], rfl⟩
  | cons c s ih =>
    obtain ⟨first, hfirst⟩ := ih (c :: before)
    rw [List.cons_append, lowercaseAfter, hfirst, List.reverse_cons, List.append_assoc, List.singleton_append,
      ← List.append_assoc]
    exact ⟨_, rfl⟩

/-- Neither a capital letter nor beyond ASCII. -/
def Uncased (c : Char) : Prop := c.toNat < 65

theorem lower_uncased {c : Char} (h : Uncased c) : c ≠ 'Σ' ∧ table.lower c = [c] := by
  unfold Uncased at h
  refine ⟨?_, ?_⟩
  · rintro rfl
    exact absurd h (by decide)
  · rw [table.lower_ascii c (by omega)]
    unfold Char.toLower
    have hsmall : ¬ (c.val ≥ 'A'.val ∧ c.val ≤ 'Z'.val) := by
      rintro ⟨hge, -⟩
      have hnat : 65 ≤ c.toNat := hge
      omega
    rw [dif_neg hsmall]

theorem lowercaseAfter_uncased {before s : List Char} (h : ∀ c ∈ s, Uncased c) : table.lowercaseAfter before s = s := by
  induction s generalizing before with
  | nil => rfl
  | cons c s ih =>
    obtain ⟨hsigma, hlower⟩ := @lower_uncased table c (h c List.mem_cons_self)
    rw [lowercaseAfter, if_neg hsigma, hlower, ih fun d hd => h d (List.mem_cons_of_mem c hd)]
    rfl

theorem toLowercase_append {s t : List Char} (h : ∀ c ∈ t, Uncased c) :
    ∃ first, table.toLowercase (s ++ t) = first ++ t := by
  obtain ⟨first, hfirst⟩ := @lowercaseAfter_append table [] s t
  exact ⟨first, by rw [toLowercase, hfirst, lowercaseAfter_uncased h]⟩

theorem toLowercase_numbered {s : List Char} {n m : Nat}
    (h : table.toLowercase (s ++ ' ' :: decimal n) = table.toLowercase (s ++ ' ' :: decimal m)) : n = m := by
  have huncased : ∀ k, ∀ c ∈ ' ' :: decimal k, Uncased c := by
    intro k c hc
    unfold Uncased
    rcases List.mem_cons.mp hc with rfl | hdigit
    · decide
    · have hbounds := digit_bounds (isDigits_decimal c hdigit)
      omega
  have hblank : ∀ k, ' ' ∉ decimal k := fun k hmem => absurd (isDigits_decimal ' ' hmem) (by decide)
  obtain ⟨x, hx⟩ := @toLowercase_append table s _ (huncased n)
  obtain ⟨y, hy⟩ := @toLowercase_append table s _ (huncased m)
  rw [hx, hy] at h
  -- the last blank of each is the one before the number
  rcases List.append_eq_append_iff.mp h with ⟨rest, -, hrest⟩ | ⟨rest, -, hrest⟩
  · cases rest with
    | nil => exact decimal_injective (List.cons.inj hrest).2
    | cons c rest =>
      obtain ⟨-, htail⟩ := List.cons.inj hrest
      exact absurd (htail ▸ List.mem_append_right rest List.mem_cons_self) (hblank n)
  · cases rest with
    | nil => exact (decimal_injective (List.cons.inj hrest).2).symm
    | cons c rest =>
      obtain ⟨-, htail⟩ := List.cons.inj hrest
      exact absurd (htail ▸ List.mem_append_right rest List.mem_cons_self) (hblank m)

end CaseTable

end SyncEngine
