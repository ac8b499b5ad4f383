import Mathlib
import SyncEngine.Library.Delimited

/-!
# Decimal numbers of a fixed width

A number below a power of ten has one text of that many digits, and texts of one width are ordered as their
numbers are.  A fraction may be written without its closing zeros.
-/

namespace SyncEngine

def IsDigits (l : List Char) : Prop := ∀ c ∈ l, c.isDigit = true

def zeroPadded (width n : Nat) : List Char := (decimal n).leftpad width '0'

/-- The width counts the sign. -/
def zeroPaddedInt (width : Nat) (n : Int) : List Char :=
  if n < 0 then '-' :: zeroPadded (width - 1) n.natAbs else zeroPadded width n.toNat

def trimEndZeros (l : List Char) : List Char := (l.reverse.dropWhile (· = '0')).reverse

def digitsValue (l : List Char) : Nat := Nat.ofDigitChars 10 l 0

section Value

variable {l l' : List Char} {n width : Nat}

theorem digitsValue_decimal : digitsValue (decimal n) = n := Nat.ofDigitChars_ten_toDigits

theorem isDigits_decimal : IsDigits (decimal n) := fun _ hc =>
  Nat.isDigit_of_mem_toDigits (by decide) (by decide) hc

theorem decimal_ne_nil : decimal n ≠ [] := Nat.toDigits_ne_nil

theorem digitsValue_cons (c : Char) (l : List Char) :
    digitsValue (c :: l) = 10 ^ l.length * (c.toNat - 48) + digitsValue l := by
  unfold digitsValue
  rw [Nat.ofDigitChars_cons, Nat.ofDigitChars_eq_ofDigitChars_zero]
  simp

theorem digitsValue_append : digitsValue (l ++ l') = 10 ^ l'.length * digitsValue l + digitsValue l' := by
  unfold digitsValue
  rw [Nat.ofDigitChars_append, Nat.ofDigitChars_eq_ofDigitChars_zero]

theorem digitsValue_zeros (k : Nat) : digitsValue (List.replicate k '0') = 0 := by
  unfold digitsValue
  simp

theorem digit_bounds {c : Char} (h : c.isDigit = true) : 48 ≤ c.toNat ∧ c.toNat ≤ 57 := Char.isDigit_iff_toNat.mp h

theorem digitsValue_lt (h : IsDigits l) : digitsValue l < 10 ^ l.length := by
  induction l with
  | nil => decide
  | cons c l ih =>
    have hrest := ih fun d hd => h d (List.mem_cons_of_mem c hd)
    have hc := digit_bounds (h c List.mem_cons_self)
    have hle : 10 ^ l.length * (c.toNat - 48) ≤ 10 ^ l.length * 9 := Nat.mul_le_mul_left _ (by omega)
    rw [digitsValue_cons, List.length_cons, Nat.pow_succ]
    omega

theorem digitsValue_lt_iff (h : IsDigits l) (h' : IsDigits l') (hlength : l.length = l'.length) :
    digitsValue l < digitsValue l' ↔ l < l' := by
  induction l generalizing l' with
  | nil =>
    have hnil : l' = [] := List.length_eq_zero_iff.mp hlength.symm
    subst hnil
    simp [digitsValue]
  | cons c l ih =>
    cases l' with
    | nil => cases hlength
    | cons d l' =>
      have hlength' : l.length = l'.length := Nat.succ.inj hlength
      have hl : IsDigits l := fun x hx => h x (List.mem_cons_of_mem c hx)
      have hl' : IsDigits l' := fun x hx => h' x (List.mem_cons_of_mem d hx)
      have hc := digit_bounds (h c List.mem_cons_self)
      have hd := digit_bounds (h' d List.mem_cons_self)
      have hv := digitsValue_lt hl
      have hv' := digitsValue_lt hl'
      rw [digitsValue_cons, digitsValue_cons, List.cons_lt_cons_iff, hlength']
      rw [hlength'] at hv
      rcases lt_trichotomy c d with hlt | heq | hgt
      · have hnat : c.toNat < d.toNat := hlt
        have hle : 10 ^ l'.length * (c.toNat - 48 + 1) ≤ 10 ^ l'.length * (d.toNat - 48) :=
          Nat.mul_le_mul_left _ (by omega)
        rw [Nat.mul_add] at hle
        exact ⟨fun _ => .inl hlt, fun _ => by omega⟩
      · subst heq
        have hrest := ih hl hl' hlength'
        constructor
        · intro hlt
          exact .inr ⟨rfl, hrest.mp (by omega)⟩
        · rintro (hlt | ⟨-, hlt⟩)
          · exact absurd hlt (lt_irrefl c)
          · have hvalue := hrest.mpr hlt
            omega
      · have hnat : d.toNat < c.toNat := hgt
        have hle : 10 ^ l'.length * (d.toNat - 48 + 1) ≤ 10 ^ l'.length * (c.toNat - 48) :=
          Nat.mul_le_mul_left _ (by omega)
        rw [Nat.mul_add] at hle
        constructor
        · intro hlt
          omega
        · rintro (hlt | ⟨heq, -⟩)
          · exact absurd hlt (lt_asymm hgt)
          · exact absurd heq hgt.ne'

theorem digits_eq (h : IsDigits l) (h' : IsDigits l') (hlength : l.length = l'.length)
    (hvalue : digitsValue l = digitsValue l') : l = l' := by
  have hlt := digitsValue_lt_iff h h' hlength
  have hgt := digitsValue_lt_iff h' h hlength.symm
  rcases lt_trichotomy l l' with hless | heq | hmore
  · have hval := hlt.mpr hless
    omega
  · exact heq
  · have hval := hgt.mpr hmore
    omega

end Value

/-! ## Padding -/

section Padded

variable {l : List Char} {n m width : Nat}

theorem zeroPadded_eq : zeroPadded width n = List.replicate (width - (decimal n).length) '0' ++ decimal n := rfl

theorem length_zeroPadded (hwidth : 0 < width) (hn : n < 10 ^ width) : (zeroPadded width n).length = width := by
  have hlength : (decimal n).length ≤ width := (Nat.length_toDigits_le_iff (by decide) hwidth).mpr hn
  rw [zeroPadded_eq, List.length_append, List.length_replicate]
  omega

theorem isDigits_zeroPadded : IsDigits (zeroPadded width n) := by
  intro c hc
  rw [zeroPadded_eq, List.mem_append] at hc
  rcases hc with hzero | hdigit
  · rw [(List.mem_replicate.mp hzero).2]
    rfl
  · exact isDigits_decimal c hdigit

theorem digitsValue_zeroPadded : digitsValue (zeroPadded width n) = n := by
  rw [zeroPadded_eq, digitsValue_append, digitsValue_zeros, digitsValue_decimal]
  omega

theorem eq_zeroPadded (h : IsDigits l) (hne : l ≠ []) : l = zeroPadded l.length (digitsValue l) := by
  have hpos : 0 < l.length := List.length_pos_iff.mpr hne
  exact digits_eq h isDigits_zeroPadded (length_zeroPadded hpos (digitsValue_lt h)).symm digitsValue_zeroPadded.symm

theorem zeroPadded_lt_iff (hwidth : 0 < width) (hn : n < 10 ^ width) (hm : m < 10 ^ width) :
    zeroPadded width n < zeroPadded width m ↔ n < m := by
  have hlength : (zeroPadded width n).length = (zeroPadded width m).length := by
    rw [length_zeroPadded hwidth hn, length_zeroPadded hwidth hm]
  rw [← digitsValue_lt_iff isDigits_zeroPadded isDigits_zeroPadded hlength, digitsValue_zeroPadded,
    digitsValue_zeroPadded]

theorem zeroPadded_inj (h : zeroPadded width n = zeroPadded width m) : n = m := by
  have hvalue := congrArg digitsValue h
  rwa [digitsValue_zeroPadded, digitsValue_zeroPadded] at hvalue

end Padded

/-! ## Fields one after the other -/

theorem append_lt_append_iff {α : Type} [LinearOrder α] {a b s t : List α} (h : a.length = b.length) :
    a ++ s < b ++ t ↔ a < b ∨ a = b ∧ s < t := by
  induction a generalizing b with
  | nil =>
    have hnil : b = [] := List.length_eq_zero_iff.mp h.symm
    subst hnil
    simp
  | cons x a ih =>
    cases b with
    | nil => cases h
    | cons y b =>
      rw [List.cons_append, List.cons_append, List.cons_lt_cons_iff, List.cons_lt_cons_iff,
        ih (Nat.succ.inj h), List.cons.injEq]
      constructor
      · rintro (hlt | ⟨rfl, hlt | ⟨rfl, hlt⟩⟩)
        · exact .inl (.inl hlt)
        · exact .inl (.inr ⟨rfl, hlt⟩)
        · exact .inr ⟨⟨rfl, rfl⟩, hlt⟩
      · rintro ((hlt | ⟨rfl, hlt⟩) | ⟨⟨rfl, rfl⟩, hlt⟩)
        · exact .inl hlt
        · exact .inr ⟨rfl, .inl hlt⟩
        · exact .inr ⟨rfl, .inr ⟨rfl, hlt⟩⟩

theorem zeroPadded_append_lt_iff {width n m : Nat} {s t : List Char} (hwidth : 0 < width) (hn : n < 10 ^ width)
    (hm : m < 10 ^ width) :
    zeroPadded width n ++ s < zeroPadded width m ++ t ↔ n < m ∨ n = m ∧ s < t := by
  have hlength : (zeroPadded width n).length = (zeroPadded width m).length := by
    rw [length_zeroPadded hwidth hn, length_zeroPadded hwidth hm]
  rw [append_lt_append_iff hlength, zeroPadded_lt_iff hwidth hn hm]
  refine or_congr_right (and_congr_left fun _ => ?_)
  exact ⟨zeroPadded_inj, congrArg _⟩

theorem cons_lt_cons_same {α : Type} [LinearOrder α] {c : α} {s t : List α} : c :: s < c :: t ↔ s < t := by
  rw [List.cons_lt_cons_iff]
  simp

/-! ## Closing zeros -/

section Trimmed

variable {l : List Char}

theorem trimEndZeros_append (l : List Char) : ∃ k, l = trimEndZeros l ++ List.replicate k '0' := by
  have hspan : l.reverse.takeWhile (· = '0') ++ l.reverse.dropWhile (· = '0') = l.reverse :=
    List.takeWhile_append_dropWhile
  have hzeros : l.reverse.takeWhile (· = '0') = List.replicate (l.reverse.takeWhile (· = '0')).length '0' := by
    refine List.eq_replicate_of_mem fun c hc => ?_
    simpa using List.mem_takeWhile_imp hc
  refine ⟨(l.reverse.takeWhile (· = '0')).length, ?_⟩
  have hreverse := congrArg List.reverse hspan
  rw [List.reverse_append, List.reverse_reverse, hzeros, List.reverse_replicate] at hreverse
  exact hreverse.symm

theorem trimEndZeros_ne_nil (h : digitsValue l ≠ 0) : trimEndZeros l ≠ [] := by
  intro hnil
  obtain ⟨k, hk⟩ := trimEndZeros_append l
  rw [hnil, List.nil_append] at hk
  rw [hk] at h
  exact h (digitsValue_zeros k)

theorem isDigits_trimEndZeros (h : IsDigits l) : IsDigits (trimEndZeros l) := by
  obtain ⟨k, hk⟩ := trimEndZeros_append l
  intro c hc
  refine h c ?_
  rw [hk]
  exact List.mem_append_left _ hc

theorem digitsValue_trimEndZeros (l : List Char) :
    digitsValue (trimEndZeros l) * 10 ^ (l.length - (trimEndZeros l).length) = digitsValue l := by
  obtain ⟨k, hk⟩ := trimEndZeros_append l
  have hlength : l.length - (trimEndZeros l).length = k := by
    have htotal := congrArg List.length hk
    rw [List.length_append, List.length_replicate] at htotal
    omega
  rw [hlength]
  conv_rhs => rw [hk, digitsValue_append, digitsValue_zeros, List.length_replicate]
  rw [Nat.add_zero, Nat.mul_comm]

theorem length_trimEndZeros_le (l : List Char) : (trimEndZeros l).length ≤ l.length := by
  obtain ⟨k, hk⟩ := trimEndZeros_append l
  have htotal := congrArg List.length hk
  rw [List.length_append] at htotal
  omega

end Trimmed

/-!
## Numbers of a bounded width as text

A signed number is read with a sign or without one; written, it has a sign only when it is negative.  What is
written of a number the width holds is read back as it.
-/

/-- A decimal number of at most `bits` bits in two's complement, with or without a sign before it. -/
def parseSigned (bits : Nat) (text : List Char) : Option Int :=
  match text with
  | '-' :: digits =>
    if digits = [] ∨ ¬digits.all Char.isDigit then none
    else if digitsValue digits ≤ 2 ^ (bits - 1) then some (-(digitsValue digits : Int)) else none
  | text => (parseUnsigned (bits - 1) text).map Int.ofNat

def signedDecimal (n : Int) : List Char := if n < 0 then '-' :: decimal n.natAbs else decimal n.toNat

section Unsigned

variable {s : List Char} {bits n : Nat}

theorem parseUnsigned_digits (hne : s ≠ []) (h : IsDigits s) (hlt : digitsValue s < 2 ^ bits) :
    parseUnsigned bits s = some (digitsValue s) := by
  have hplus : stripFront ['+'] s = none := by
    cases s with
    | nil => rfl
    | cons c s =>
      refine stripFront_ne fun hc => ?_
      exact absurd (h c List.mem_cons_self) (by rw [hc]; decide)
  have hall : s.all Char.isDigit = true := List.all_eq_true.mpr h
  unfold parseUnsigned
  rw [hplus]
  show (if s = [] ∨ ¬s.all Char.isDigit then none else if digitsValue s < 2 ^ bits then some (digitsValue s) else none) = _
  rw [if_neg (by simp [hne, hall]), if_pos hlt]

theorem parseUnsigned_decimal (hn : n < 2 ^ bits) : parseUnsigned bits (decimal n) = some n := by
  have hread := @parseUnsigned_digits (decimal n) bits decimal_ne_nil isDigits_decimal (by rwa [digitsValue_decimal])
  rwa [digitsValue_decimal] at hread

theorem parseUnsigned_zeroPadded {width : Nat} (hn : n < 2 ^ bits) :
    parseUnsigned bits (zeroPadded width n) = some n := by
  have hne : zeroPadded width n ≠ [] := by
    rw [zeroPadded_eq]
    exact List.append_ne_nil_of_right_ne_nil _ decimal_ne_nil
  have hread := @parseUnsigned_digits (zeroPadded width n) bits hne isDigits_zeroPadded (by rwa [digitsValue_zeroPadded])
  rwa [digitsValue_zeroPadded] at hread

theorem parseUnsigned_lt (h : parseUnsigned bits s = some n) : n < 2 ^ bits := by
  unfold parseUnsigned at h
  simp only at h
  split_ifs at h with hbad hlt
  rw [← Option.some.inj h]
  exact hlt

end Unsigned

section Signed

variable {s : List Char} {bits : Nat} {n : Int}

theorem parseSigned_digits (hne : s ≠ []) (h : IsDigits s) (hlt : digitsValue s < 2 ^ (bits - 1)) :
    parseSigned bits s = some (digitsValue s : Int) := by
  have hread := parseUnsigned_digits hne h hlt
  unfold parseSigned
  split
  next digits =>
    exact absurd (h '-' List.mem_cons_self) (by decide)
  next =>
    rw [hread]
    rfl

theorem parseSigned_minus (hne : s ≠ []) (h : IsDigits s) (hle : digitsValue s ≤ 2 ^ (bits - 1)) :
    parseSigned bits ('-' :: s) = some (-(digitsValue s : Int)) := by
  have hall : s.all Char.isDigit = true := List.all_eq_true.mpr h
  show (if s = [] ∨ ¬s.all Char.isDigit then none
    else if digitsValue s ≤ 2 ^ (bits - 1) then some (-(digitsValue s : Int)) else none) = _
  rw [if_neg (by simp [hne, hall]), if_pos hle]

theorem parseSigned_signedDecimal (hlow : -2 ^ (bits - 1) ≤ n) (hhigh : n < 2 ^ (bits - 1)) :
    parseSigned bits (signedDecimal n) = some n := by
  have hcast : ((2 ^ (bits - 1) : Nat) : Int) = 2 ^ (bits - 1) := by push_cast; rfl
  unfold signedDecimal
  by_cases hneg : n < 0
  · rw [if_pos hneg, parseSigned_minus decimal_ne_nil isDigits_decimal (by rw [digitsValue_decimal]; omega),
      digitsValue_decimal]
    congr 1
    omega
  · rw [if_neg hneg, parseSigned_digits decimal_ne_nil isDigits_decimal (by rw [digitsValue_decimal]; omega),
      digitsValue_decimal]
    congr 1
    omega

theorem parseSigned_zeroPaddedInt {width : Nat} (hlow : -2 ^ (bits - 1) ≤ n) (hhigh : n < 2 ^ (bits - 1)) :
    parseSigned bits (zeroPaddedInt width n) = some n := by
  have hcast : ((2 ^ (bits - 1) : Nat) : Int) = 2 ^ (bits - 1) := by push_cast; rfl
  have hne : ∀ w m, zeroPadded w m ≠ [] := fun w m => by
    rw [zeroPadded_eq]
    exact List.append_ne_nil_of_right_ne_nil _ decimal_ne_nil
  unfold zeroPaddedInt
  by_cases hneg : n < 0
  · rw [if_pos hneg, parseSigned_minus (hne _ _) isDigits_zeroPadded (by rw [digitsValue_zeroPadded]; omega),
      digitsValue_zeroPadded]
    congr 1
    omega
  · rw [if_neg hneg, parseSigned_digits (hne _ _) isDigits_zeroPadded (by rw [digitsValue_zeroPadded]; omega),
      digitsValue_zeroPadded]
    congr 1
    omega

theorem parseSigned_bounds (h : parseSigned bits s = some n) : -2 ^ (bits - 1) ≤ n ∧ n < 2 ^ (bits - 1) := by
  have hcast : ((2 ^ (bits - 1) : Nat) : Int) = 2 ^ (bits - 1) := by push_cast; rfl
  have hpos : 0 < 2 ^ (bits - 1) := Nat.two_pow_pos _
  unfold parseSigned at h
  split at h
  · split_ifs at h with hbad hle
    rw [← Option.some.inj h]
    omega
  · obtain ⟨m, hm, rfl⟩ := Option.map_eq_some_iff.mp h
    have hlt := parseUnsigned_lt hm
    rw [Int.ofNat_eq_natCast]
    omega

end Signed

end SyncEngine
