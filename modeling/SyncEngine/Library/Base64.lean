import SyncEngine.Library.Delimited
import SyncEngine.Library.Lists
import SyncEngine.Library.Utf8

/-!
# Base64

Bytes as letters and back.  Decoding keeps what it has not given out yet in a buffer of 32 bits, and gives a byte out
as soon as it has eight bits of it; a byte that is not of the alphabet makes the text none.
-/

namespace SyncEngine
namespace Base64

open Utf8

def alphabet : List Char := "ABCDEFGHIJKLMNOPQRSTUVWXYZabcdefghijklmnopqrstuvwxyz0123456789+/".toList

def symbol (bits : Nat) : Char := alphabet.getD bits '='

def encodeChunk (chunk : List UInt8) : List Char :=
  let b0 := (chunk.getD 0 0).toNat
  let b1 := (chunk.getD 1 0).toNat
  let b2 := (chunk.getD 2 0).toNat
  [symbol (b0 >>> 2), symbol (((b0 &&& 0x03) <<< 4) ||| (b1 >>> 4)),
    if 1 < chunk.length then symbol (((b1 &&& 0x0f) <<< 2) ||| (b2 >>> 6)) else '=',
    if 2 < chunk.length then symbol (b2 &&& 0x3f) else '=']

def encode (input : List UInt8) : List Char := (chunks 3 input).flatMap encodeChunk

def value (b : UInt8) : Option Nat :=
  if 65 ≤ b.toNat ∧ b.toNat ≤ 90 then some (b.toNat - 65)
  else if 97 ≤ b.toNat ∧ b.toNat ≤ 122 then some (b.toNat - 97 + 26)
  else if 48 ≤ b.toNat ∧ b.toNat ≤ 57 then some (b.toNat - 48 + 52)
  else if b.toNat = 43 then some 62
  else if b.toNat = 47 then some 63
  else none

/-- The buffer with the bits of one more symbol: the oldest fall out of its 32. -/
def push (buffer v : Nat) : Nat := ((buffer <<< 6) % 2 ^ 32) ||| v

def byte? (n : Nat) : Option UInt8 := if n < 256 then some (UInt8.ofNat n) else none

/-- The outer `none` is a panic, the inner one a text that is not base64. -/
def decodeFrom (out : List UInt8) (buffer bits : Nat) : List UInt8 → Option (Option (List UInt8))
  | [] => some (some out)
  | byte :: rest =>
    if byte = ascii '=' then some (some out)
    else
      match value byte with
      | none => some none
      | some v =>
        if 8 ≤ bits + 6 then
          match byte? ((push buffer v >>> (bits + 6 - 8)) &&& 0xFF) with
          | none => none
          | some b => decodeFrom (out ++ [b]) (push buffer v) (bits + 6 - 8) rest
        else decodeFrom out (push buffer v) (bits + 6) rest

def decode (text : List Char) : Option (Option (List UInt8)) := decodeFrom [] 0 0 (bytes text)

/-! ## Symbols -/

section Symbols

variable {v : Nat} {c : Char}

theorem symbol_mem (h : v < 64) : symbol v ∈ alphabet := by
  have hlength : alphabet.length = 64 := by decide
  unfold symbol
  rw [List.getD_eq_getElem?_getD, List.getElem?_eq_getElem (by omega)]
  exact List.getElem_mem _

/-- Every letter is a byte of its own, and none of the signs a mailbox name gives a meaning. -/
theorem alphabet_letters : ∀ c ∈ alphabet, c.toNat < 128 ∧ 0x20 ≤ c.toNat ∧ c.toNat ≤ 0x7e ∧ c ≠ '=' ∧ c ≠ '&' ∧
    c ≠ '-' ∧ c ≠ ',' := by
  decide

theorem value_symbol : ∀ v < 64, value (ascii (symbol v)) = some v := by decide +kernel

theorem symbol_ne_padding (v : Nat) (h : v < 64) : ascii (symbol v) ≠ ascii '=' := by
  intro e
  have hnone : value (ascii '=') = none := by decide
  exact nomatch (e ▸ value_symbol v h).symm.trans hnone

end Symbols

/-! ## Decoding -/

section Decoding

variable {out : List UInt8} {buffer bits v n : Nat} {rest : List UInt8}

theorem and_eq_mod (n k : Nat) : n &&& (2 ^ k - 1) = n % 2 ^ k := Nat.and_two_pow_sub_one_eq_mod n k

theorem push_eq (h : v < 64) : push buffer v = buffer * 64 % 4294967296 + v := by
  have hmod : buffer * 64 % 4294967296 = 2 ^ 6 * (buffer % 67108864) := by omega
  unfold push
  rw [Nat.shiftLeft_eq]
  show buffer * 64 % 4294967296 ||| v = _
  rw [hmod]
  exact (Nat.two_pow_add_eq_or_of_lt h _).symm

theorem byte?_masked (n : Nat) : byte? (n &&& 0xFF) = some (UInt8.ofNat (n % 256)) := by
  have hmask : n &&& 0xFF = n % 256 := and_eq_mod n 8
  unfold byte?
  rw [hmask, if_pos (Nat.mod_lt n (by decide))]

theorem decodeFrom_symbol (h : v < 64) : decodeFrom out buffer bits (ascii (symbol v) :: rest) =
    if 8 ≤ bits + 6 then
      decodeFrom (out ++ [UInt8.ofNat (push buffer v / 2 ^ (bits - 2) % 256)]) (push buffer v) (bits - 2) rest
    else decodeFrom out (push buffer v) (bits + 6) rest := by
  have hbits : bits + 6 - 8 = bits - 2 := by omega
  rw [decodeFrom, if_neg (symbol_ne_padding v h), value_symbol v h]
  dsimp only
  rw [byte?_masked, hbits, Nat.shiftRight_eq_div_pow]

theorem decodeFrom_isSome (out : List UInt8) (buffer bits : Nat) (bytes : List UInt8) :
    (decodeFrom out buffer bits bytes).isSome = true := by
  induction bytes generalizing out buffer bits with
  | nil => rfl
  | cons byte rest ih =>
    unfold decodeFrom
    split
    · rfl
    · split
      · rfl
      · split
        · rw [byte?_masked]
          exact ih _ _ _
        · exact ih _ _ _

theorem decode_isSome (text : List Char) : (decode text).isSome = true := decodeFrom_isSome [] 0 0 _

end Decoding

/-! ## Encoding -/

section Encoding

variable {out : List UInt8} {buffer : Nat} {a b c : UInt8} {input rest : List UInt8}

theorem join_eq {high low k : Nat} (h : low < 2 ^ k) : (high <<< k) ||| low = high * 2 ^ k + low := by
  rw [Nat.shiftLeft_eq, Nat.mul_comm]
  exact (Nat.two_pow_add_eq_or_of_lt h high).symm

theorem first_eq (a : UInt8) : a.toNat >>> 2 = a.toNat / 4 := Nat.shiftRight_eq_div_pow _ 2

theorem second_eq (a b : UInt8) : ((a.toNat &&& 0x03) <<< 4) ||| (b.toNat >>> 4) = a.toNat % 4 * 16 + b.toNat / 16 := by
  have hmask : a.toNat &&& 0x03 = a.toNat % 4 := and_eq_mod _ 2
  have hshift : b.toNat >>> 4 = b.toNat / 16 := Nat.shiftRight_eq_div_pow _ 4
  have hlt : b.toNat / 16 < 2 ^ 4 := by
    have hb := b.toNat_lt
    omega
  rw [hmask, hshift]
  exact join_eq hlt

theorem third_eq (b c : UInt8) : ((b.toNat &&& 0x0f) <<< 2) ||| (c.toNat >>> 6) = b.toNat % 16 * 4 + c.toNat / 64 := by
  have hmask : b.toNat &&& 0x0f = b.toNat % 16 := and_eq_mod _ 4
  have hshift : c.toNat >>> 6 = c.toNat / 64 := Nat.shiftRight_eq_div_pow _ 6
  have hlt : c.toNat / 64 < 2 ^ 2 := by
    have hc := c.toNat_lt
    omega
  rw [hmask, hshift]
  exact join_eq hlt

theorem fourth_eq (c : UInt8) : c.toNat &&& 0x3f = c.toNat % 64 := and_eq_mod _ 6

theorem symbol_letter (v : Nat) : symbol v ∈ '=' :: alphabet := by
  rw [symbol, List.getD_eq_getElem?_getD]
  cases hv : alphabet[v]? with
  | none => exact List.mem_cons_self
  | some c => exact List.mem_cons_of_mem _ (List.mem_of_getElem? hv)

theorem encode_letters {d : Char} (h : d ∈ encode input) : d ∈ '=' :: alphabet := by
  obtain ⟨chunk, -, hd⟩ := List.mem_flatMap.mp h
  unfold encodeChunk at hd
  simp only [List.mem_cons, List.not_mem_nil, or_false] at hd
  rcases hd with rfl | rfl | rfl | rfl
  · exact symbol_letter _
  · exact symbol_letter _
  · split
    · exact symbol_letter _
    · exact List.mem_cons_self
  · split
    · exact symbol_letter _
    · exact List.mem_cons_self

@[simp] theorem encode_nil : encode [] = [] := rfl

theorem encode_one : encode [a] = [symbol (a.toNat / 4), symbol (a.toNat % 4 * 16), '=', '='] := by
  have hchunk : encode [a] = [symbol (a.toNat >>> 2), symbol (((a.toNat &&& 0x03) <<< 4) ||| ((0 : UInt8).toNat >>> 4)), '=', '='] := rfl
  rw [hchunk, first_eq, second_eq]
  simp

theorem encode_two : encode [a, b] =
    [symbol (a.toNat / 4), symbol (a.toNat % 4 * 16 + b.toNat / 16), symbol (b.toNat % 16 * 4), '='] := by
  have hchunk : encode [a, b] = [symbol (a.toNat >>> 2), symbol (((a.toNat &&& 0x03) <<< 4) ||| (b.toNat >>> 4)),
    symbol (((b.toNat &&& 0x0f) <<< 2) ||| ((0 : UInt8).toNat >>> 6)), '='] := rfl
  rw [hchunk, first_eq, second_eq, third_eq]
  simp

theorem encode_three (rest : List UInt8) : encode (a :: b :: c :: rest) =
    symbol (a.toNat / 4) :: symbol (a.toNat % 4 * 16 + b.toNat / 16) :: symbol (b.toNat % 16 * 4 + c.toNat / 64) ::
      symbol (c.toNat % 64) :: encode rest := by
  have hchunks : chunks 3 (a :: b :: c :: rest) = [a, b, c] :: chunks 3 rest :=
    chunks_append (by decide) (show [a, b, c].length = 3 from rfl)
  have hchunk : encodeChunk [a, b, c] = [symbol (a.toNat >>> 2), symbol (((a.toNat &&& 0x03) <<< 4) ||| (b.toNat >>> 4)),
    symbol (((b.toNat &&& 0x0f) <<< 2) ||| (c.toNat >>> 6)), symbol (c.toNat &&& 0x3f)] := rfl
  unfold encode
  rw [hchunks, List.flatMap_cons, hchunk, first_eq, second_eq, third_eq, fourth_eq]
  rfl

/-- What is written without the padding. -/
def unpadded (input : List UInt8) : List Char := (encode input).filter fun c => c ≠ '='

theorem symbol_ne_equals (v : Nat) (h : v < 64) : symbol v ≠ '=' := (alphabet_letters _ (symbol_mem h)).2.2.2.1

theorem unpadded_nil : unpadded [] = [] := rfl

theorem unpadded_one : unpadded [a] = [symbol (a.toNat / 4), symbol (a.toNat % 4 * 16)] := by
  have ha := a.toNat_lt
  have hfirst := symbol_ne_equals (a.toNat / 4) (by omega)
  have hsecond := symbol_ne_equals (a.toNat % 4 * 16) (by omega)
  rw [unpadded, encode_one]
  simp [hfirst, hsecond]

theorem unpadded_two : unpadded [a, b] =
    [symbol (a.toNat / 4), symbol (a.toNat % 4 * 16 + b.toNat / 16), symbol (b.toNat % 16 * 4)] := by
  have ha := a.toNat_lt
  have hb := b.toNat_lt
  have hfirst := symbol_ne_equals (a.toNat / 4) (by omega)
  have hsecond := symbol_ne_equals (a.toNat % 4 * 16 + b.toNat / 16) (by omega)
  have hthird := symbol_ne_equals (b.toNat % 16 * 4) (by omega)
  rw [unpadded, encode_two]
  simp [hfirst, hsecond, hthird]

theorem unpadded_three (rest : List UInt8) : unpadded (a :: b :: c :: rest) =
    symbol (a.toNat / 4) :: symbol (a.toNat % 4 * 16 + b.toNat / 16) :: symbol (b.toNat % 16 * 4 + c.toNat / 64) ::
      symbol (c.toNat % 64) :: unpadded rest := by
  have ha := a.toNat_lt
  have hb := b.toNat_lt
  have hc := c.toNat_lt
  have hfirst := symbol_ne_equals (a.toNat / 4) (by omega)
  have hsecond := symbol_ne_equals (a.toNat % 4 * 16 + b.toNat / 16) (by omega)
  have hthird := symbol_ne_equals (b.toNat % 16 * 4 + c.toNat / 64) (by omega)
  have hfourth := symbol_ne_equals (c.toNat % 64) (by omega)
  unfold unpadded
  rw [encode_three]
  simp [hfirst, hsecond, hthird, hfourth]

theorem bytes_symbol {v : Nat} (h : v < 64) (s : List Char) : bytes (symbol v :: s) = ascii (symbol v) :: bytes s := by
  rw [bytes_cons, encode_of_lt (alphabet_letters _ (symbol_mem h)).1]
  rfl

theorem push_mod {v : Nat} (h : v < 64) : push buffer v % 64 = v := by
  rw [push_eq h]
  omega

theorem decodeFrom_kept {v : Nat} (hv : v < 64) :
    decodeFrom out buffer 0 (ascii (symbol v) :: rest) = decodeFrom out (push buffer v) 6 rest := by
  rw [decodeFrom_symbol hv, if_neg (by decide)]

theorem decodeFrom_completed {bits v : Nat} (hbits : bits = 2 ∨ bits = 4 ∨ bits = 6) (hv : v < 64) (byte : UInt8)
    (hbyte : buffer % 2 ^ bits * 2 ^ (8 - bits) + v / 2 ^ (bits - 2) = byte.toNat) :
    decodeFrom out buffer bits (ascii (symbol v) :: rest) =
      decodeFrom (out ++ [byte]) (push buffer v) (bits - 2) rest := by
  have hvalue : push buffer v / 2 ^ (bits - 2) % 256 = byte.toNat := by
    rw [push_eq hv]
    rcases hbits with rfl | rfl | rfl
    · simp only [Nat.reducePow, Nat.reduceSub] at hbyte ⊢
      omega
    · simp only [Nat.reducePow, Nat.reduceSub] at hbyte ⊢
      omega
    · simp only [Nat.reducePow, Nat.reduceSub] at hbyte ⊢
      omega
  have hlong : 8 ≤ bits + 6 := by omega
  rw [decodeFrom_symbol hv, if_pos hlong, hvalue, UInt8.ofNat_toNat]

/-- Decoding undoes encoding, whatever the buffer still holds. -/
theorem decodeFrom_unpadded : ∀ (input out : List UInt8) (buffer : Nat),
    decodeFrom out buffer 0 (bytes (unpadded input)) = some (some (out ++ input))
  | [], out, buffer => by
    rw [unpadded_nil, List.append_nil]
    rfl
  | [a], out, buffer => by
    have ha := a.toNat_lt
    have hu : a.toNat / 4 < 64 := by omega
    have hv : a.toNat % 4 * 16 < 64 := by omega
    have hkept := @push_mod buffer _ hu
    rw [unpadded_one, bytes_symbol hu, bytes_symbol hv, decodeFrom_kept hu,
      decodeFrom_completed (.inr (.inr rfl)) hv a (by simp only [Nat.reducePow, Nat.reduceSub]; omega)]
    rfl
  | [a, b], out, buffer => by
    have ha := a.toNat_lt
    have hb := b.toNat_lt
    have hu : a.toNat / 4 < 64 := by omega
    have hv : a.toNat % 4 * 16 + b.toNat / 16 < 64 := by omega
    have hw : b.toNat % 16 * 4 < 64 := by omega
    have hkept := @push_mod buffer _ hu
    have hnext := @push_mod (push buffer (a.toNat / 4)) _ hv
    rw [unpadded_two, bytes_symbol hu, bytes_symbol hv, bytes_symbol hw, decodeFrom_kept hu,
      decodeFrom_completed (.inr (.inr rfl)) hv a (by simp only [Nat.reducePow, Nat.reduceSub]; omega),
      decodeFrom_completed (.inr (.inl rfl)) hw b (by simp only [Nat.reducePow, Nat.reduceSub]; omega),
      List.append_assoc]
    rfl
  | a :: b :: c :: rest, out, buffer => by
    have ha := a.toNat_lt
    have hb := b.toNat_lt
    have hc := c.toNat_lt
    have hu : a.toNat / 4 < 64 := by omega
    have hv : a.toNat % 4 * 16 + b.toNat / 16 < 64 := by omega
    have hw : b.toNat % 16 * 4 + c.toNat / 64 < 64 := by omega
    have hx : c.toNat % 64 < 64 := by omega
    have hkept := @push_mod buffer _ hu
    have hnext := @push_mod (push buffer (a.toNat / 4)) _ hv
    have hlast := @push_mod (push (push buffer (a.toNat / 4)) (a.toNat % 4 * 16 + b.toNat / 16)) _ hw
    rw [unpadded_three, bytes_symbol hu, bytes_symbol hv, bytes_symbol hw, bytes_symbol hx, decodeFrom_kept hu,
      decodeFrom_completed (.inr (.inr rfl)) hv a (by simp only [Nat.reducePow, Nat.reduceSub]; omega),
      decodeFrom_completed (.inr (.inl rfl)) hw b (by simp only [Nat.reducePow, Nat.reduceSub]; omega),
      decodeFrom_completed (.inl rfl) hx c (by simp only [Nat.reducePow, Nat.reduceSub]; omega),
      decodeFrom_unpadded rest, List.append_assoc, List.append_assoc, List.append_assoc]
    rfl

theorem decode_unpadded (input : List UInt8) : decode (unpadded input) = some (some input) :=
  decodeFrom_unpadded input [] 0

theorem unpadded_letters {d : Char} (h : d ∈ unpadded input) : d ∈ alphabet := by
  obtain ⟨hd, hne⟩ := List.mem_filter.mp h
  exact (List.mem_cons.mp (encode_letters hd)).resolve_left (of_decide_eq_true hne)

theorem unpadded_ne_nil : ∀ {input : List UInt8}, input ≠ [] → unpadded input ≠ []
  | [], h => absurd rfl h
  | [a], _ => by
    rw [unpadded_one]
    exact List.cons_ne_nil _ _
  | [a, b], _ => by
    rw [unpadded_two]
    exact List.cons_ne_nil _ _
  | a :: b :: c :: rest, _ => by
    rw [unpadded_three]
    exact List.cons_ne_nil _ _

end Encoding

end Base64
end SyncEngine
