import Mathlib

/-!
# Texts by their 16-bit units

A character below `0x10000` is one unit and any other a pair of surrogates.  The bytes of the units come with the
higher one first.
-/

namespace SyncEngine
namespace Utf16

def encodeChar (c : Char) : List Nat :=
  if c.toNat < 0x10000 then [c.toNat]
  else [0xD800 + (c.toNat - 0x10000) / 0x400, 0xDC00 + (c.toNat - 0x10000) % 0x400]

def units (text : List Char) : List Nat := text.flatMap encodeChar

/-- The text of units in which every surrogate is one of a pair. -/
def decode : List Nat → Option (List Char)
  | [] => some []
  | [u] => if u < 0xD800 ∨ 0xDFFF < u then some [Char.ofNat u] else none
  | u :: v :: rest =>
    if u < 0xD800 ∨ 0xDFFF < u then (decode (v :: rest)).map (Char.ofNat u :: ·)
    else if u < 0xDC00 ∧ 0xDC00 ≤ v ∧ v ≤ 0xDFFF then
      (decode rest).map (Char.ofNat (0x10000 + (u - 0xD800) * 0x400 + (v - 0xDC00)) :: ·)
    else none

def toBytes (u : Nat) : List UInt8 := [UInt8.ofNat (u / 256), UInt8.ofNat (u % 256)]

def ofBytes : List UInt8 → Option (List Nat)
  | [] => some []
  | [_] => none
  | high :: low :: rest => (ofBytes rest).map ((high.toNat * 256 + low.toNat) :: ·)

variable {text : List Char} {c : Char} {u : Nat} {units' rest : List Nat}

theorem scalar (c : Char) : c.toNat < 0xD800 ∨ 0xDFFF < c.toNat ∧ c.toNat < 0x110000 := c.valid

theorem lt_of_mem_encodeChar (h : u ∈ encodeChar c) : u < 65536 := by
  have hc := scalar c
  unfold encodeChar at h
  split at h
  · rw [List.mem_singleton.mp h]
    assumption
  · simp only [List.mem_cons, List.not_mem_nil, or_false] at h
    omega

theorem encodeChar_ne_nil (c : Char) : encodeChar c ≠ [] := by
  unfold encodeChar
  split
  · exact List.cons_ne_nil _ _
  · exact List.cons_ne_nil _ _

theorem decode_unit (h : u < 0xD800 ∨ 0xDFFF < u) : decode (u :: rest) = (decode rest).map (Char.ofNat u :: ·) := by
  cases rest with
  | nil =>
    show (if u < 0xD800 ∨ 0xDFFF < u then some [Char.ofNat u] else none) = _
    rw [if_pos h]
    rfl
  | cons v rest => rw [decode, if_pos h]

theorem decode_encodeChar (c : Char) (rest : List Nat) : decode (encodeChar c ++ rest) = (decode rest).map (c :: ·) := by
  have hc := scalar c
  unfold encodeChar
  split
  · rw [List.singleton_append, decode_unit (by omega), Char.ofNat_toNat]
  · rename_i hlarge
    have hvalue : 0x10000 + (0xD800 + (c.toNat - 0x10000) / 0x400 - 0xD800) * 0x400 +
        (0xDC00 + (c.toNat - 0x10000) % 0x400 - 0xDC00) = c.toNat := by omega
    rw [List.cons_append, List.singleton_append, decode, if_neg (by omega), if_pos (by omega), hvalue, Char.ofNat_toNat]

theorem decode_units (text : List Char) : decode (units text) = some text := by
  induction text with
  | nil => rfl
  | cons c text ih =>
    unfold units at ih ⊢
    rw [List.flatMap_cons, decode_encodeChar, ih]
    rfl

theorem ofBytes_toBytes (h : ∀ u ∈ units', u < 65536) : ofBytes (units'.flatMap toBytes) = some units' := by
  induction units' with
  | nil => rfl
  | cons u units' ih =>
    obtain ⟨hu, hrest⟩ := List.forall_mem_cons.mp h
    have hhigh : (UInt8.ofNat (u / 256)).toNat = u / 256 := by
      rw [UInt8.toNat_ofNat']
      omega
    have hlow : (UInt8.ofNat (u % 256)).toNat = u % 256 := by
      rw [UInt8.toNat_ofNat']
      omega
    have hunit : u / 256 * 256 + u % 256 = u := by omega
    show (ofBytes (units'.flatMap toBytes)).map _ = _
    rw [ih hrest, hhigh, hlow, hunit]
    rfl

theorem lt_of_mem_units (h : u ∈ units text) : u < 65536 := by
  obtain ⟨c, -, hu⟩ := List.mem_flatMap.mp h
  exact lt_of_mem_encodeChar hu

end Utf16
end SyncEngine
