import Mathlib

/-!
# Texts by their bytes

A text is a list of characters, and an offset into it counts the bytes of their encodings.  An offset inside a
character is none a text can be cut at.  A byte below 128 is a character of its own, so a text can be cut before
it and after it.
-/

namespace SyncEngine
namespace Utf8

/-- How many bytes a text takes. -/
def size (s : List Char) : Nat := (s.map Char.utf8Size).sum

def bytes (s : List Char) : List UInt8 := s.flatMap String.utf8EncodeChar

def byteAt (s : List Char) (i : Nat) : Option UInt8 := (bytes s)[i]?

def ascii (c : Char) : UInt8 := UInt8.ofNat c.toNat

/-- The text before a byte offset and the text from it on. -/
def cutAt? : List Char → Nat → Option (List Char × List Char)
  | s, 0 => some ([], s)
  | [], _ + 1 => none
  | c :: s, n + 1 =>
    if c.utf8Size ≤ n + 1 then (cutAt? s (n + 1 - c.utf8Size)).map fun r => (c :: r.1, r.2) else none

/-- The text between two byte offsets. -/
def slice? (s : List Char) (i j : Nat) : Option (List Char) :=
  (cutAt? s i).bind fun r => (cutAt? r.2 (j - i)).map Prod.fst

variable {s t : List Char} {c : Char} {i n : Nat}

@[simp] theorem size_nil : size [] = 0 := rfl

@[simp] theorem size_cons : size (c :: s) = c.utf8Size + size s := by simp [size]

@[simp] theorem size_append : size (s ++ t) = size s + size t := by simp [size]

theorem length_bytes : (bytes s).length = size s := by
  induction s with
  | nil => rfl
  | cons c s ih => simpa [bytes] using ih

theorem bytes_cons : bytes (c :: s) = String.utf8EncodeChar c ++ bytes s := rfl

theorem bytes_append : bytes (s ++ t) = bytes s ++ bytes t := by simp [bytes]

theorem byteAt_append : byteAt (s ++ t) (size s + i) = byteAt t i := by
  unfold byteAt
  rw [bytes_append, List.getElem?_append_right (by rw [length_bytes]; omega), length_bytes]
  congr 1
  omega

theorem size_eq_zero (h : size s = 0) : s = [] := by
  cases s with
  | nil => rfl
  | cons c s =>
    have hpos := c.utf8Size_pos
    rw [size_cons] at h
    omega

/-! ## Cuts -/

theorem cutAt?_append : cutAt? (s ++ t) (size s) = some (s, t) := by
  induction s with
  | nil => cases t <;> rfl
  | cons c s ih =>
    obtain ⟨k, hk⟩ : ∃ k, size (c :: s) = k + 1 := ⟨size (c :: s) - 1, by
      have hpos := c.utf8Size_pos
      rw [size_cons]
      omega⟩
    have hrest : k + 1 - c.utf8Size = size s := by
      rw [size_cons] at hk
      omega
    have hle : c.utf8Size ≤ k + 1 := by
      rw [size_cons] at hk
      omega
    rw [hk, List.cons_append, cutAt?, if_pos hle, hrest, ih]
    rfl

theorem cutAt?_eq_some_iff {r : List Char × List Char} : cutAt? s n = some r ↔ s = r.1 ++ r.2 ∧ size r.1 = n := by
  constructor
  · intro h
    fun_induction cutAt? s n generalizing r with
    | case1 s =>
      cases h
      exact ⟨rfl, rfl⟩
    | case2 n => cases h
    | case3 c s n hle ih =>
      obtain ⟨q, hq, rfl⟩ := Option.map_eq_some_iff.mp h
      obtain ⟨hs, hsize⟩ := ih hq
      refine ⟨congrArg (c :: ·) hs, ?_⟩
      rw [size_cons, hsize]
      omega
    | case4 c s n hle => cases h
  · rintro ⟨rfl, rfl⟩
    exact cutAt?_append

theorem slice?_append {before middle after : List Char} {j : Nat} (hi : size before = i)
    (hj : i + size middle = j) : slice? (before ++ (middle ++ after)) i j = some middle := by
  subst hi hj
  unfold slice?
  rw [cutAt?_append, Option.bind_some, Nat.add_sub_cancel_left, cutAt?_append]
  rfl

theorem slice?_append_left {before after : List Char} {j : Nat} (hi : size before = i) :
    slice? (before ++ after) i j = (cutAt? after (j - i)).map Prod.fst := by
  subst hi
  unfold slice?
  rw [cutAt?_append]
  rfl

theorem slice?_append_right {before after : List Char} {j : Nat} (hi : size before = i)
    (hj : i + size after = j) : slice? (before ++ after) i j = some after := by
  have hall := @slice?_append i before after [] j hi hj
  rwa [List.append_nil] at hall

/-! ## ASCII -/

theorem utf8Size_of_lt (h : c.toNat < 128) : c.utf8Size = 1 := by
  rw [← String.length_utf8EncodeChar]
  have hval : c.val.toNat ≤ 0x7f := by
    have heq : c.val.toNat = c.toNat := rfl
    omega
  rw [String.utf8EncodeChar, if_pos hval]
  rfl

theorem encode_of_lt (h : c.toNat < 128) : String.utf8EncodeChar c = [ascii c] := by
  have hval : c.val.toNat ≤ 0x7f := by
    have heq : c.val.toNat = c.toNat := rfl
    omega
  rw [String.utf8EncodeChar, if_pos hval]
  rfl

theorem high_of_le (h : 128 ≤ c.toNat) : ∀ b ∈ String.utf8EncodeChar c, 128 ≤ b.toNat := by
  intro b hb
  have hval : ¬ c.val.toNat ≤ 0x7f := by
    have heq : c.val.toNat = c.toNat := rfl
    omega
  have hlead : ∀ x m k : Nat, 128 ≤ k → m + k ≤ 256 → 0 < m → 128 ≤ (UInt8.ofNat (x % m + k)).toNat := by
    intro x m k hk hm hpos
    have hmod := Nat.mod_lt x hpos
    rw [UInt8.toNat_ofNat']
    omega
  rw [String.utf8EncodeChar, if_neg hval] at hb
  split at hb
  · simp only [List.mem_cons, List.not_mem_nil, or_false] at hb
    rcases hb with rfl | rfl
    · exact hlead _ _ _ (by decide) (by decide) (by decide)
    · exact hlead _ _ _ (by decide) (by decide) (by decide)
  · split at hb
    · simp only [List.mem_cons, List.not_mem_nil, or_false] at hb
      rcases hb with rfl | rfl | rfl
      · exact hlead _ _ _ (by decide) (by decide) (by decide)
      · exact hlead _ _ _ (by decide) (by decide) (by decide)
      · exact hlead _ _ _ (by decide) (by decide) (by decide)
    · simp only [List.mem_cons, List.not_mem_nil, or_false] at hb
      rcases hb with rfl | rfl | rfl | rfl
      · exact hlead _ _ _ (by decide) (by decide) (by decide)
      · exact hlead _ _ _ (by decide) (by decide) (by decide)
      · exact hlead _ _ _ (by decide) (by decide) (by decide)
      · exact hlead _ _ _ (by decide) (by decide) (by decide)

theorem ascii_toNat (h : c.toNat < 128) : (ascii c).toNat = c.toNat := by
  rw [ascii, UInt8.toNat_ofNat']
  omega

theorem split_of_byteAt {d : Char} (hd : d.toNat < 128) (h : byteAt s i = some (ascii d)) :
    ∃ before after, s = before ++ d :: after ∧ size before = i := by
  induction s generalizing i with
  | nil => cases h
  | cons c s ih =>
    by_cases hi : i < c.utf8Size
    · have hin : (String.utf8EncodeChar c)[i]? = some (ascii d) := by
        unfold byteAt at h
        rwa [bytes_cons, List.getElem?_append_left (by simpa using hi)] at h
      by_cases hc : c.toNat < 128
      · rw [encode_of_lt hc] at hin
        have hzero : i = 0 := by
          rw [utf8Size_of_lt hc] at hi
          omega
        subst hzero
        have hsame : ascii c = ascii d := Option.some.inj hin
        have hnat : c.toNat = d.toNat := by rw [← ascii_toNat hc, ← ascii_toNat hd, hsame]
        exact ⟨[], s, by rw [List.nil_append, Char.toNat_inj.mp hnat], rfl⟩
      · have hhigh := high_of_le (by omega) _ (List.mem_of_getElem? hin)
        rw [ascii_toNat hd] at hhigh
        omega
    · obtain ⟨k, rfl⟩ : ∃ k, i = size [c] + k := ⟨i - c.utf8Size, by simp; omega⟩
      have hrest : byteAt s k = some (ascii d) := by
        rw [← byteAt_append (s := [c])]
        exact h
      obtain ⟨before, after, rfl, hsize⟩ := ih hrest
      exact ⟨c :: before, after, rfl, by simp [hsize]⟩

theorem byteAt_append_cons {before after : List Char} {d : Char} (hd : d.toNat < 128)
    (hi : size before = i) : byteAt (before ++ d :: after) i = some (ascii d) := by
  subst hi
  have hstart := byteAt_append (s := before) (t := d :: after) (i := 0)
  rw [Nat.add_zero] at hstart
  rw [hstart, byteAt, bytes_cons, encode_of_lt hd]
  rfl

theorem size_eq_length (h : ∀ c ∈ s, c.toNat < 128) : size s = s.length := by
  induction s with
  | nil => rfl
  | cons c s ih =>
    rw [size_cons, utf8Size_of_lt (h c List.mem_cons_self), ih fun d hd => h d (List.mem_cons_of_mem c hd),
      List.length_cons]
    omega

theorem bytes_eq_map (h : ∀ c ∈ s, c.toNat < 128) : bytes s = s.map ascii := by
  induction s with
  | nil => rfl
  | cons c s ih =>
    rw [bytes_cons, encode_of_lt (h c List.mem_cons_self), ih fun d hd => h d (List.mem_cons_of_mem c hd)]
    rfl

theorem bytes_lt_iff (hs : ∀ c ∈ s, c.toNat < 128) (ht : ∀ c ∈ t, c.toNat < 128) : bytes s < bytes t ↔ s < t := by
  rw [bytes_eq_map hs, bytes_eq_map ht]
  induction s generalizing t with
  | nil => cases t <;> simp
  | cons c s ih =>
    cases t with
    | nil => simp
    | cons d t =>
      have hc := hs c List.mem_cons_self
      have hd := ht d List.mem_cons_self
      have hlt : ascii c < ascii d ↔ c < d := by
        rw [UInt8.lt_iff_toNat_lt, ascii_toNat hc, ascii_toNat hd]
        exact Iff.rfl
      have heq : ascii c = ascii d ↔ c = d := by rw [← UInt8.toNat_inj, ascii_toNat hc, ascii_toNat hd, Char.toNat_inj]
      rw [List.map_cons, List.map_cons, List.cons_lt_cons_iff, List.cons_lt_cons_iff, hlt, heq,
        ih (fun x hx => hs x (List.mem_cons_of_mem c hx)) (fun x hx => ht x (List.mem_cons_of_mem d hx))]

end Utf8

namespace Utf8

/-!
## Bytes read as text, whatever they are

Bytes that are no character are read as the replacement character, one for every longest beginning of a character.
The bytes of a text are read as the text.
-/

def replacement : Char := Char.ofNat 0xFFFD

/-- A byte that goes on with a character. -/
def isContinuation (b : UInt8) : Bool := 0x80 ≤ b.toNat && b.toNat ≤ 0xBF

/-- Whether a byte may follow the first of three or four. -/
def isSecond (a b : UInt8) : Bool :=
  if a.toNat = 0xE0 then 0xA0 ≤ b.toNat && b.toNat ≤ 0xBF
  else if a.toNat = 0xED then 0x80 ≤ b.toNat && b.toNat ≤ 0x9F
  else if a.toNat = 0xF0 then 0x90 ≤ b.toNat && b.toNat ≤ 0xBF
  else if a.toNat = 0xF4 then 0x80 ≤ b.toNat && b.toNat ≤ 0x8F
  else isContinuation b

def lossy : List UInt8 → List Char
  | [] => []
  | a :: rest =>
    if a.toNat < 0x80 then Char.ofNat a.toNat :: lossy rest
    else if 0xC2 ≤ a.toNat && a.toNat ≤ 0xDF then
      match rest with
      | [] => [replacement]
      | b :: rest' =>
        if isContinuation b then Char.ofNat ((a.toNat - 0xC0) * 64 + (b.toNat - 0x80)) :: lossy rest'
        else replacement :: lossy (b :: rest')
    else if 0xE0 ≤ a.toNat && a.toNat ≤ 0xEF then
      match rest with
      | [] => [replacement]
      | [b] => if isSecond a b then [replacement] else replacement :: lossy [b]
      | b :: c :: rest' =>
        if isSecond a b then
          if isContinuation c then
            Char.ofNat ((a.toNat - 0xE0) * 4096 + (b.toNat - 0x80) * 64 + (c.toNat - 0x80)) :: lossy rest'
          else replacement :: lossy (c :: rest')
        else replacement :: lossy (b :: c :: rest')
    else if 0xF0 ≤ a.toNat && a.toNat ≤ 0xF4 then
      match rest with
      | [] => [replacement]
      | [b] => if isSecond a b then [replacement] else replacement :: lossy [b]
      | [b, c] =>
        if isSecond a b then if isContinuation c then [replacement] else replacement :: lossy [c]
        else replacement :: lossy [b, c]
      | b :: c :: d :: rest' =>
        if isSecond a b then
          if isContinuation c then
            if isContinuation d then
              Char.ofNat ((a.toNat - 0xF0) * 262144 + (b.toNat - 0x80) * 4096 + (c.toNat - 0x80) * 64 +
                (d.toNat - 0x80)) :: lossy rest'
            else replacement :: lossy (d :: rest')
          else replacement :: lossy (c :: d :: rest')
        else replacement :: lossy (b :: c :: d :: rest')
    else replacement :: lossy rest

variable {c : Char} {rest : List UInt8}

theorem toNat_ofNat {n : Nat} (h : n < 256) : (UInt8.ofNat n).toNat = n := by
  rw [UInt8.toNat_ofNat']
  omega

theorem lossy_encode (c : Char) (rest : List UInt8) : lossy (String.utf8EncodeChar c ++ rest) = c :: lossy rest := by
  have hvalid : c.toNat < 0xD800 ∨ 0xDFFF < c.toNat ∧ c.toNat < 0x110000 := c.valid
  have hval : c.val.toNat = c.toNat := rfl
  rw [String.utf8EncodeChar]
  rw [hval]
  generalize hv : c.toNat = v at hvalid
  split
  · rename_i hle
    rw [List.singleton_append, lossy.eq_def]
    dsimp only
    rw [toNat_ofNat (by omega), if_pos (by omega), ← hv, Char.ofNat_toNat]
  · split
    · have ha : (UInt8.ofNat (v / 64 % 32 + 192)).toNat = v / 64 % 32 + 192 := toNat_ofNat (by omega)
      have hb : (UInt8.ofNat (v % 64 + 128)).toNat = v % 64 + 128 := toNat_ofNat (by omega)
      have hchar : (v / 64 % 32 + 192 - 0xC0) * 64 + (v % 64 + 128 - 0x80) = v := by omega
      have hcont : isContinuation (UInt8.ofNat (v % 64 + 128)) = true := by
        simp only [isContinuation, hb, Bool.and_eq_true, decide_eq_true_eq]
        omega
      rw [List.cons_append, List.singleton_append, lossy.eq_def]
      dsimp only
      rw [ha, if_neg (by omega), if_pos (by simp only [Bool.and_eq_true, decide_eq_true_eq]; omega)]
      rw [if_pos hcont, hb, hchar, ← hv, Char.ofNat_toNat]
    · split
      · have ha : (UInt8.ofNat (v / 4096 % 16 + 224)).toNat = v / 4096 % 16 + 224 := toNat_ofNat (by omega)
        have hb : (UInt8.ofNat (v / 64 % 64 + 128)).toNat = v / 64 % 64 + 128 := toNat_ofNat (by omega)
        have hc : (UInt8.ofNat (v % 64 + 128)).toNat = v % 64 + 128 := toNat_ofNat (by omega)
        have hchar : (v / 4096 % 16 + 224 - 0xE0) * 4096 + (v / 64 % 64 + 128 - 0x80) * 64 + (v % 64 + 128 - 0x80) = v := by
          omega
        have hsecond : isSecond (UInt8.ofNat (v / 4096 % 16 + 224)) (UInt8.ofNat (v / 64 % 64 + 128)) = true := by
          unfold isSecond isContinuation
          rw [ha, hb]
          split_ifs <;> simp only [Bool.and_eq_true, decide_eq_true_eq] <;> omega
        have hcont : isContinuation (UInt8.ofNat (v % 64 + 128)) = true := by
          simp only [isContinuation, hc, Bool.and_eq_true, decide_eq_true_eq]
          omega
        rw [List.cons_append, List.cons_append, List.singleton_append, lossy.eq_def]
        dsimp only
        rw [ha, if_neg (by omega), if_neg (by simp only [Bool.and_eq_true, decide_eq_true_eq]; omega),
          if_pos (by simp only [Bool.and_eq_true, decide_eq_true_eq]; omega)]
        rw [if_pos hsecond, if_pos hcont, hb, hc, hchar, ← hv, Char.ofNat_toNat]
      · have ha : (UInt8.ofNat (v / 262144 % 8 + 240)).toNat = v / 262144 % 8 + 240 := toNat_ofNat (by omega)
        have hb : (UInt8.ofNat (v / 4096 % 64 + 128)).toNat = v / 4096 % 64 + 128 := toNat_ofNat (by omega)
        have hc : (UInt8.ofNat (v / 64 % 64 + 128)).toNat = v / 64 % 64 + 128 := toNat_ofNat (by omega)
        have hd : (UInt8.ofNat (v % 64 + 128)).toNat = v % 64 + 128 := toNat_ofNat (by omega)
        have hchar : (v / 262144 % 8 + 240 - 0xF0) * 262144 + (v / 4096 % 64 + 128 - 0x80) * 4096 +
            (v / 64 % 64 + 128 - 0x80) * 64 + (v % 64 + 128 - 0x80) = v := by omega
        have hsecond : isSecond (UInt8.ofNat (v / 262144 % 8 + 240)) (UInt8.ofNat (v / 4096 % 64 + 128)) = true := by
          unfold isSecond isContinuation
          rw [ha, hb]
          split_ifs <;> simp only [Bool.and_eq_true, decide_eq_true_eq] <;> omega
        have hthird : isContinuation (UInt8.ofNat (v / 64 % 64 + 128)) = true := by
          simp only [isContinuation, hc, Bool.and_eq_true, decide_eq_true_eq]
          omega
        have hfourth : isContinuation (UInt8.ofNat (v % 64 + 128)) = true := by
          simp only [isContinuation, hd, Bool.and_eq_true, decide_eq_true_eq]
          omega
        rw [List.cons_append, List.cons_append, List.cons_append, List.singleton_append, lossy.eq_def]
        dsimp only
        rw [ha, if_neg (by omega), if_neg (by simp only [Bool.and_eq_true, decide_eq_true_eq]; omega),
          if_neg (by simp only [Bool.and_eq_true, decide_eq_true_eq]; omega),
          if_pos (by simp only [Bool.and_eq_true, decide_eq_true_eq]; omega)]
        rw [if_pos hsecond, if_pos hthird, if_pos hfourth, hb, hc, hd, hchar, ← hv, Char.ofNat_toNat]

theorem lossy_bytes (s : List Char) : lossy (bytes s) = s := by
  induction s with
  | nil => rfl
  | cons c s ih => rw [bytes_cons, lossy_encode, ih]

end Utf8
end SyncEngine
