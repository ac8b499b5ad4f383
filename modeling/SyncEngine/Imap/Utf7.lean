import SyncEngine.Library.Base64
import SyncEngine.Library.Delimited
import SyncEngine.Library.Utf16

/-!
# Mailbox names in modified UTF-7

Printable ASCII stands for itself but for the ampersand, and a run of anything else is shifted into base64.  Decoding
undoes encoding for every name and takes every text; what is encoded is printable, but for a name of ASCII characters
without an ampersand, which is left alone with the control characters in it.
-/

namespace SyncEngine
namespace Imap
namespace Utf7

open Utf8

open Utf16 Base64

/-- The byte offset of the first `c`. -/
def find (c : Char) : List Char → Option Nat
  | [] => none
  | d :: rest => if d = c then some 0 else (find c rest).map (d.utf8Size + ·)

/-- The text of a run; the outer `none` is a panic, the inner one a run that is not well formed. -/
def decodeBase64Run (encoded : List Char) : Option (Option (List Char)) :=
  if encoded = [] then some none
  else
    match decode (encoded.map fun c => if c = ',' then '/' else c) with
    | none => none
    | some none => some none
    | some (some octets) => some ((ofBytes octets).bind decode)

/-- The passes of the loop over what is left of the name; `none` is a panic, or more passes than there are. -/
def decodeFrom : Nat → List Char → List Char → Option (List Char)
  | 0, _, _ => none
  | fuel + 1, out, rest =>
    match find '&' rest with
    | none => some (out ++ rest)
    | some shift =>
      match cutAt? rest shift, cutAt? rest (shift + 1) with
      | some (before, _), some (_, after) =>
        match stripFront ['-'] after with
        | some tail => decodeFrom fuel (out ++ before ++ ['&']) tail
        | none =>
          match splitAtFirst ['-'] after with
          | none => some (out ++ before ++ '&' :: after)
          | some (encoded, tail) =>
            match decodeBase64Run encoded with
            | none => none
            | some none => decodeFrom fuel (out ++ before ++ '&' :: encoded ++ ['-']) tail
            | some (some decoded) => decodeFrom fuel (out ++ before ++ decoded) tail
      | _, _ => none

def decode (name : List Char) : Option (List Char) :=
  if '&' ∈ name then decodeFrom (name.length + 1) [] name else some name

def isPrintable (c : Char) : Bool := 0x20 ≤ c.toNat && c.toNat ≤ 0x7e

def modified (octets : List UInt8) : List Char :=
  (encode octets).filterMap fun c => if c = '=' then none else some (if c = '/' then ',' else c)

def flushShift (shift : List Nat) (out : List Char) : List Char :=
  if shift = [] then out else out ++ '&' :: modified (shift.flatMap toBytes) ++ ['-']

def encodeFrom (shift : List Nat) (out : List Char) : List Char → List Char
  | [] => flushShift shift out
  | c :: rest =>
    if isPrintable c then encodeFrom [] (flushShift shift out ++ if c = '&' then ['&', '-'] else [c]) rest
    else encodeFrom (shift ++ encodeChar c) out rest

def isAscii (name : List Char) : Bool := name.all fun c => c.toNat < 128

def encode (name : List Char) : List Char :=
  if isAscii name && !('&' ∈ name) then name else encodeFrom [] [] name

/-! ## Shifts -/

section Shifts

variable {c : Char} {text before after : List Char} {i : Nat} {octets : List UInt8}

theorem find_append (h : c ∉ before) : find c (before ++ c :: after) = some (size before) := by
  induction before with
  | nil => rw [List.nil_append, find, if_pos rfl]; rfl
  | cons d before ih =>
    obtain ⟨hd, hbefore⟩ := not_or.mp (List.mem_cons.not.mp h)
    rw [List.cons_append, find, if_neg (Ne.symm hd), ih hbefore, size_cons]
    rfl

theorem find_eq_none (h : c ∉ text) : find c text = none := by
  induction text with
  | nil => rfl
  | cons d text ih =>
    obtain ⟨hd, htext⟩ := not_or.mp (List.mem_cons.not.mp h)
    rw [find, if_neg (Ne.symm hd), ih htext]
    rfl

theorem first_cases (c : Char) (text : List Char) :
    c ∉ text ∨ ∃ before after, text = before ++ c :: after ∧ c ∉ before := by
  by_cases h : c ∈ text
  · obtain ⟨before, after, htext, hbefore⟩ := List.eq_append_cons_of_mem h
    exact .inr ⟨before, after, htext, hbefore⟩
  · exact .inl h

theorem decodeBase64Run_isSome (encoded : List Char) : (decodeBase64Run encoded).isSome = true := by
  unfold decodeBase64Run
  split
  · rfl
  · have hbase := decode_isSome (encoded.map fun c => if c = ',' then '/' else c)
    split
    · rename_i hnone
      rw [hnone] at hbase
      exact nomatch hbase
    · rfl
    · rfl

theorem modified_eq (octets : List UInt8) :
    modified octets = (unpadded octets).map fun c => if c = '/' then ',' else c := by
  unfold modified unpadded
  rw [← List.filterMap_eq_map, List.filterMap_filter]
  apply List.filterMap_congr
  intro c _
  by_cases hc : c = '='
  · simp [hc]
  · simp [hc]

theorem mem_modified (h : c ∈ modified octets) : isPrintable c = true ∧ c ≠ '&' ∧ c ≠ '-' := by
  rw [modified_eq] at h
  obtain ⟨d, hd, rfl⟩ := List.mem_map.mp h
  obtain ⟨-, hlow, hhigh, -, hand, hdash, -⟩ := alphabet_letters d (unpadded_letters hd)
  split
  · decide
  · refine ⟨?_, hand, hdash⟩
    simp [isPrintable, hlow, hhigh]

theorem decodeBase64Run_modified (hne : text ≠ []) :
    decodeBase64Run (modified ((units text).flatMap toBytes)) = some (some text) := by
  have hbytes : (units text).flatMap toBytes ≠ [] := by
    cases text with
    | nil => exact absurd rfl hne
    | cons c text =>
      intro hnil
      have hfirst := List.flatMap_eq_nil_iff.mp hnil
      cases hunits : units (c :: text) with
      | nil =>
        unfold units at hunits
        exact encodeChar_ne_nil c (List.flatMap_eq_nil_iff.mp hunits c List.mem_cons_self)
      | cons u rest =>
        have hu := hfirst u (hunits ▸ List.mem_cons_self)
        exact nomatch hu
  have hback : (modified ((units text).flatMap toBytes)).map (fun c => if c = ',' then '/' else c) =
      unpadded ((units text).flatMap toBytes) := by
    rw [modified_eq, List.map_map]
    conv_rhs => rw [← List.map_id (unpadded _)]
    apply List.map_congr_left
    intro c hc
    have hcomma := (alphabet_letters c (unpadded_letters hc)).2.2.2.2.2.2
    by_cases hslash : c = '/'
    · simp [hslash]
    · simp [hslash, hcomma]
  have hwritten : modified ((units text).flatMap toBytes) ≠ [] := by
    rw [modified_eq]
    exact fun hnil => unpadded_ne_nil hbytes (List.map_eq_nil_iff.mp hnil)
  unfold decodeBase64Run
  rw [if_neg hwritten, hback, decode_unpadded]
  dsimp only
  rw [ofBytes_toBytes fun u hu => lt_of_mem_units hu, Option.bind_some, decode_units]

end Shifts

/-! ## The loop -/

section Loop

variable {fuel : Nat} {out before after encoded tail text rest : List Char} {c : Char}

theorem decodeFrom_plain (h : '&' ∉ rest) : decodeFrom (fuel + 1) out rest = some (out ++ rest) := by
  rw [decodeFrom, find_eq_none h]

theorem decodeFrom_shift (h : '&' ∉ before) : decodeFrom (fuel + 1) out (before ++ '&' :: after) =
    match stripFront ['-'] after with
    | some tail => decodeFrom fuel (out ++ before ++ ['&']) tail
    | none =>
      match splitAtFirst ['-'] after with
      | none => some (out ++ before ++ '&' :: after)
      | some (encoded, tail) =>
        match decodeBase64Run encoded with
        | none => none
        | some none => decodeFrom fuel (out ++ before ++ '&' :: encoded ++ ['-']) tail
        | some (some decoded) => decodeFrom fuel (out ++ before ++ decoded) tail := by
  have hone : size (before ++ ['&']) = size before + 1 := by
    rw [size_append, size_cons, size_nil]
    rfl
  have hcut : cutAt? (before ++ '&' :: after) (size before + 1) = some (before ++ ['&'], after) := by
    rw [← hone, ← cutAt?_append (s := before ++ ['&']) (t := after), List.append_assoc]
    rfl
  rw [decodeFrom, find_append h]
  dsimp only
  rw [cutAt?_append, hcut]

theorem decodeFrom_isSome (fuel : Nat) (out rest : List Char) (h : rest.length < fuel) :
    (decodeFrom fuel out rest).isSome = true := by
  induction fuel generalizing out rest with
  | zero => exact nomatch h
  | succ fuel ih =>
    rcases first_cases '&' rest with hno | ⟨before, after, rfl, hbefore⟩
    · rw [decodeFrom_plain hno]
      rfl
    · rw [List.length_append, List.length_cons] at h
      rw [decodeFrom_shift hbefore]
      split
      · rename_i tail htail
        rw [stripFront_eq_some_iff.mp htail, List.length_append] at h
        exact ih _ _ (by omega)
      · split
        · rfl
        · rename_i encoded tail hsplit
          rw [(splitAtFirst_eq_some_iff.mp hsplit).1, List.length_append, List.length_cons] at h
          have hrun := decodeBase64Run_isSome encoded
          split
          · rename_i hnone
            rw [hnone] at hrun
            exact nomatch hrun
          · exact ih _ _ (by omega)
          · exact ih _ _ (by omega)

theorem decode_isSome (name : List Char) : (decode name).isSome = true := by
  unfold decode
  split
  · exact decodeFrom_isSome _ _ _ (Nat.lt_succ_self _)
  · rfl

theorem decodeFrom_cons (hc : c ≠ '&') : decodeFrom fuel out (c :: rest) = decodeFrom fuel (out ++ [c]) rest := by
  cases fuel with
  | zero => rfl
  | succ fuel =>
    rcases first_cases '&' rest with hno | ⟨before, after, rfl, hbefore⟩
    · have hcons : '&' ∉ c :: rest := by simp [hno, Ne.symm hc]
      rw [decodeFrom_plain hno, decodeFrom_plain hcons]
      simp
    · have hcons : '&' ∉ c :: before := by simp [hbefore, Ne.symm hc]
      rw [decodeFrom_shift hbefore, ← List.cons_append, decodeFrom_shift hcons]
      simp only [List.append_assoc, List.singleton_append]

end Loop

/-! ## Round trip -/

section RoundTrip

variable {fuel : Nat} {shift : List Nat} {out run text after name : List Char} {c : Char}

theorem flushShift_out : flushShift shift out = out ++ flushShift shift [] := by
  unfold flushShift
  split
  · rw [List.append_nil]
  · simp

theorem encodeFrom_out : encodeFrom shift out text = out ++ encodeFrom shift [] text := by
  induction text generalizing shift out with
  | nil => exact flushShift_out
  | cons c text ih =>
    unfold encodeFrom
    split
    · rw [ih, @ih [] (flushShift shift [] ++ _), flushShift_out]
      simp
    · exact ih

theorem units_concat (run : List Char) (c : Char) : units run ++ encodeChar c = units (run ++ [c]) := by
  unfold units
  rw [List.flatMap_append, List.flatMap_singleton]

theorem decodeFrom_flushShift (h : (flushShift (units run) [] ++ after).length < fuel) : ∃ fuel', after.length < fuel' ∧
      decodeFrom fuel out (flushShift (units run) [] ++ after) = decodeFrom fuel' (out ++ run) after := by
  cases run with
  | nil => exact ⟨fuel, h, by rw [List.append_nil]; rfl⟩
  | cons c run =>
    have hunits : units (c :: run) ≠ [] := fun hnil =>
      encodeChar_ne_nil c (List.flatMap_eq_nil_iff.mp hnil c List.mem_cons_self)
    unfold flushShift at h ⊢
    rw [if_neg hunits] at h ⊢
    generalize hencoded : modified ((units (c :: run)).flatMap toBytes) = encoded at h ⊢
    have hletters : ∀ d ∈ encoded, isPrintable d = true ∧ d ≠ '&' ∧ d ≠ '-' := fun d hd => mem_modified (hencoded ▸ hd)
    have hrun : decodeBase64Run encoded = some (some (c :: run)) := by
      rw [← hencoded]
      exact decodeBase64Run_modified (List.cons_ne_nil _ _)
    obtain ⟨d, encoded', rfl⟩ : ∃ d encoded', encoded = d :: encoded' := by
      cases encoded with
      | nil => exact nomatch hrun
      | cons d encoded' => exact ⟨d, encoded', rfl⟩
    cases fuel with
    | zero => exact nomatch h
    | succ fuel =>
      have htext : [] ++ '&' :: (d :: encoded') ++ ['-'] ++ after = [] ++ '&' :: (d :: (encoded' ++ '-' :: after)) := by simp
      have hsplit : splitAtFirst ['-'] (d :: (encoded' ++ '-' :: after)) = some (d :: encoded', after) :=
        splitAtFirst_eq_some_iff.mpr ⟨rfl, fun e he => (hletters e he).2.2⟩
      have hstrip : stripFront ['-'] (d :: (encoded' ++ '-' :: after)) = none :=
        stripFront_ne (hletters d List.mem_cons_self).2.2
      refine ⟨fuel, ?_, ?_⟩
      · simp only [List.length_append, List.length_cons] at h
        omega
      · rw [htext, decodeFrom_shift List.not_mem_nil, hstrip]
        dsimp only
        rw [hsplit]
        dsimp only
        rw [hrun, List.append_nil]

theorem decodeFrom_encodeFrom (h : (encodeFrom (units run) [] text).length < fuel) :
    decodeFrom fuel out (encodeFrom (units run) [] text) = some (out ++ run ++ text) := by
  induction text generalizing run fuel out with
  | nil =>
    unfold encodeFrom at h ⊢
    rw [← List.append_nil (flushShift _ _)] at h ⊢
    obtain ⟨fuel', hfuel, hdecode⟩ := @decodeFrom_flushShift _ out _ _ h
    rw [hdecode]
    cases fuel' with
    | zero => exact nomatch hfuel
    | succ fuel' => rw [decodeFrom_plain List.not_mem_nil]
  | cons c text ih =>
    unfold encodeFrom at h ⊢
    split at h
    · rename_i hprintable
      rw [if_pos hprintable]
      rw [encodeFrom_out, List.append_assoc] at h ⊢
      obtain ⟨fuel', hfuel, hdecode⟩ := @decodeFrom_flushShift _ out _ _ h
      rw [hdecode]
      by_cases hc : c = '&'
      · rw [if_pos hc] at hfuel ⊢
        cases fuel' with
        | zero => exact nomatch hfuel
        | succ fuel' =>
          have hread := @decodeFrom_shift fuel' (out ++ run) [] ('-' :: encodeFrom [] [] text) List.not_mem_nil
          have hstrip : stripFront ['-'] ('-' :: encodeFrom [] [] text) = some (encodeFrom [] [] text) :=
            stripFront_eq_some_iff.mpr rfl
          rw [hstrip] at hread
          simp only [List.length_append, List.length_cons, List.length_nil] at hfuel
          have hrest := @ih fuel' (out ++ run ++ [] ++ ['&']) [] (by
            show (encodeFrom [] [] text).length < fuel'
            omega)
          rw [hc]
          refine (hread.trans hrest).trans ?_
          simp
      · rw [if_neg hc] at hfuel ⊢
        rw [List.singleton_append] at hfuel ⊢
        rw [decodeFrom_cons hc]
        rw [List.length_cons] at hfuel
        have hrest := @ih fuel' (out ++ run ++ [c]) [] (by
          show (encodeFrom [] [] text).length < fuel'
          omega)
        refine hrest.trans ?_
        simp
    · rename_i hprintable
      rw [if_neg hprintable, units_concat] at *
      rw [ih h]
      simp

theorem decode_encode (name : List Char) : decode (encode name) = some name := by
  have hslow : decodeFrom ((encodeFrom [] [] name).length + 1) [] (encodeFrom [] [] name) = some name :=
    @decodeFrom_encodeFrom _ [] [] name (Nat.lt_succ_self _)
  unfold encode
  split
  · rename_i hplain
    simp only [Bool.and_eq_true, Bool.not_eq_true', decide_eq_false_iff_not] at hplain
    unfold decode
    rw [if_neg hplain.2]
  · unfold decode
    split
    · exact hslow
    · rename_i hno
      rw [decodeFrom_plain hno] at hslow
      exact hslow

/-! ## What is written -/

theorem flushShift_printable (hout : ∀ c ∈ out, isPrintable c = true) :
    ∀ c ∈ flushShift shift out, isPrintable c = true := by
  unfold flushShift
  split
  · exact hout
  · intro c hc
    simp only [List.mem_append, List.mem_cons, List.not_mem_nil, or_false] at hc
    rcases hc with (hc | rfl | hc) | rfl
    · exact hout c hc
    · rfl
    · exact (mem_modified hc).1
    · rfl

theorem encodeFrom_printable (hout : ∀ c ∈ out, isPrintable c = true) :
    ∀ c ∈ encodeFrom shift out text, isPrintable c = true := by
  induction text generalizing shift out with
  | nil => exact flushShift_printable hout
  | cons d text ih =>
    unfold encodeFrom
    split
    · rename_i hprintable
      apply ih
      intro c hc
      rcases List.mem_append.mp hc with hc | hc
      · exact flushShift_printable hout c hc
      · split at hc
        · simp only [List.mem_cons, List.not_mem_nil, or_false] at hc
          rcases hc with rfl | rfl <;> rfl
        · rw [List.mem_singleton.mp hc]
          exact hprintable
    · exact ih hout

/-- A name is left alone when it is ASCII without an ampersand, and so is any control character in it. -/
theorem encode_printable_iff (name : List Char) : (∀ c ∈ encode name, isPrintable c = true) ↔
    (∃ c ∈ name, 128 ≤ c.toNat ∨ c = '&') ∨ ∀ c ∈ name, isPrintable c = true := by
  unfold encode
  split
  · rename_i hplain
    simp only [Bool.and_eq_true, Bool.not_eq_true', decide_eq_false_iff_not, isAscii, List.all_eq_true,
      decide_eq_true_eq] at hplain
    refine (or_iff_right ?_).symm
    rintro ⟨c, hc, hhigh | rfl⟩
    · have hlow := hplain.1 c hc
      omega
    · exact hplain.2 hc
  · rename_i hplain
    refine iff_of_true (encodeFrom_printable fun c hc => nomatch hc) (.inl ?_)
    simp only [Bool.and_eq_true, Bool.not_eq_true', decide_eq_false_iff_not, not_and, not_not] at hplain
    by_cases hascii : isAscii name = true
    · exact ⟨'&', hplain hascii, .inr rfl⟩
    · simp only [isAscii, List.all_eq_true, decide_eq_true_eq, not_forall] at hascii
      obtain ⟨c, hc, hhigh⟩ := hascii
      exact ⟨c, hc, .inl (by omega)⟩

/-- Decoding undoes encoding, and what was encoded is encoded again as it was; nothing makes decoding panic; and what
is encoded is printable exactly when the name has a character that is not ASCII, an ampersand, or no control
character. -/
theorem mailboxName_survives_iff (name : List Char) :
    (decode (encode name) = some name ∧ (∀ c ∈ encode name, isPrintable c = true) ∧
        (∀ wire, wire = encode name → ∃ read, decode wire = some read ∧ encode read = wire) ∧
        ∀ wire, (decode wire).isSome = true) ↔
      (∃ c ∈ name, 128 ≤ c.toNat ∨ c = '&') ∨ ∀ c ∈ name, isPrintable c = true := by
  rw [← encode_printable_iff name]
  constructor
  · exact fun h => h.2.1
  · intro hprintable
    refine ⟨decode_encode name, hprintable, ?_, decode_isSome⟩
    rintro wire rfl
    exact ⟨name, decode_encode name, rfl⟩

/-- A tab is written as it is. -/
theorem tab_is_not_printable : ¬ ∀ name : List Char, ∀ c ∈ encode name, isPrintable c = true := by
  intro h
  have htab := h ['\t'] '\t' (by decide)
  revert htab
  decide

end RoundTrip

end Utf7
end Imap
end SyncEngine
