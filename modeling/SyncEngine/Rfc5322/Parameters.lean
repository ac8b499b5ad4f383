import SyncEngine.Rfc5322.Written

/-!
# The names of an attachment, read back

A file name is a parameter of two fields: quoted where it is printable ASCII, percent-encoded elsewhere.
-/

namespace SyncEngine
namespace Rfc5322

open Utf8

open Multipart

open Utf8 (encoded encoded_append)
open Crlf (Field)

theorem ascii_notMem_encoded {text : String} {c : Char} (hc : c.toNat < 128) (h : c ∉ text.toList) :
    ascii c ∉ encoded text := fun hm => h ((ascii_mem_bytes_iff hc).mp hm)

/-! ## Quoted -/

theorem escapeQuoted_cases (c : Char) : (∃ b, bytes (escapeQuoted c) = [92, b] ∧ bytes [c] = [b]) ∨
    bytes (escapeQuoted c) = bytes [c] ∧ 34 ∉ bytes [c] ∧ 92 ∉ bytes [c] := by
  by_cases hc : c = '\\' ∨ c = '"'
  · left
    rcases hc with rfl | rfl
    · exact ⟨92, by decide, by decide⟩
    · exact ⟨34, by decide, by decide⟩
  · right
    rw [not_or] at hc
    refine ⟨congrArg bytes (if_neg (by rintro (h | h); exacts [hc.1 h, hc.2 h])), ?_, ?_⟩
    · intro hm
      have hmem := (@ascii_mem_bytes_iff [c] '"' (by decide)).mp hm
      exact hc.2 (List.mem_singleton.mp hmem).symm
    · intro hm
      have hmem := (@ascii_mem_bytes_iff [c] '\\' (by decide)).mp hm
      exact hc.1 (List.mem_singleton.mp hmem).symm

/-- What is quoted stays so to the end of the text. -/
theorem segments_escaped (cs : List Char) : segments .quoted (bytes (cs.flatMap escapeQuoted) ++ [34]) =
      [bytes (cs.flatMap escapeQuoted) ++ [34]] := by
  induction cs with
  | nil => decide
  | cons c cs ih =>
    rw [List.flatMap_cons, bytes_append, List.append_assoc]
    rcases escapeQuoted_cases c with ⟨b, hb, -⟩ | ⟨hb, hfree⟩
    · have hnot : ¬(Quoting.escaped = .plain ∧ b = 59) := fun hsplit => absurd hsplit.1 (by decide)
      have hnext := @segments_cons .escaped b _ _ _ hnot ih
      rw [hb]
      exact segments_cons (by decide) hnext
    · rw [hb]
      exact segments_quoted hfree ih

theorem unescaped_escaped (cs : List Char) : unescaped (bytes (cs.flatMap escapeQuoted) ++ [34]) = bytes cs := by
  induction cs with
  | nil => decide
  | cons c cs ih =>
    have hcons : bytes (c :: cs) = bytes [c] ++ bytes cs := bytes_append (s := [c])
    rw [List.flatMap_cons, bytes_append, List.append_assoc, hcons]
    rcases escapeQuoted_cases c with ⟨b, hb, hplain⟩ | ⟨hb, hfree⟩
    · rw [hb, hplain]
      show b :: unescaped (bytes (cs.flatMap escapeQuoted) ++ [34]) = _
      rw [ih]
      rfl
    · rw [hb, unescaped_append hfree, ih]

/-! ## Percent-encoded -/

theorem bytes_percentByte (byte : UInt8) : bytes (percentByte byte) = [byte] ∧ byte ≠ 37 ∨
    bytes (percentByte byte) = [37, ascii (hexDigit (byte.toNat / 16)), ascii (hexDigit (byte.toNat % 16))] := by
  have htable : ∀ n < 256, bytes (percentByte (UInt8.ofNat n)) = [UInt8.ofNat n] ∧ UInt8.ofNat n ≠ 37 ∨
      bytes (percentByte (UInt8.ofNat n)) = [37, ascii (hexDigit (n / 16)), ascii (hexDigit (n % 16))] := by
    decide +kernel
  have h := htable byte.toNat (UInt8.toNat_lt byte)
  rwa [UInt8.ofNat_toNat] at h

theorem hexValue?_hexDigit {n : Nat} (h : n < 16) : hexValue? (ascii (hexDigit n)) = some n := by
  have htable : ∀ n < 16, hexValue? (ascii (hexDigit n)) = some n := by decide +kernel
  exact htable n h

theorem percentDecoded_percentEncode (bs : List UInt8) : percentDecoded (encoded (percentEncode bs)) = bs := by
  rw [encoded, percentEncode, String.toList_ofList]
  induction bs with
  | nil => rfl
  | cons b bs ih =>
    have hb := b.toNat_lt
    rw [List.flatMap_cons, bytes_append]
    rcases bytes_percentByte b with ⟨hplain, hne⟩ | hcoded
    · rw [hplain, List.singleton_append, percentDecoded, ih]
      intro _ _ _ he
      exact absurd he hne
    · rw [hcoded]
      have hvalue : 16 * (b.toNat / 16) + b.toNat % 16 = b.toNat := by omega
      show percentDecoded (37 :: _ :: _ :: bytes (bs.flatMap percentByte)) = _
      rw [percentDecoded, hexValue?_hexDigit (by omega), hexValue?_hexDigit (by omega)]
      dsimp only
      rw [hvalue, ih, UInt8.ofNat_toNat]

theorem percentEncode_free {bs : List UInt8} {b : UInt8} (h : b ∈ encoded (percentEncode bs)) :
    b ≠ 34 ∧ b ≠ 59 ∧ isBlank b = false := by
  have htable : ∀ n < 256, ∀ b ∈ bytes (percentByte (UInt8.ofNat n)), b ≠ 34 ∧ b ≠ 59 ∧ isBlank b = false := by
    decide +kernel
  rw [encoded, percentEncode, String.toList_ofList, bytes, List.flatMap_assoc, List.mem_flatMap] at h
  obtain ⟨byte, -, hb⟩ := h
  have hbyte := htable byte.toNat (UInt8.toNat_lt byte) b
  rw [UInt8.ofNat_toNat] at hbyte
  exact hbyte hb

/-! ## A parameter -/

/-- A parameter is one piece, is not the boundary, and stands for its value. -/
structure ReadsAs (piece : List UInt8) (name value : String) : Prop where
  one : segments .plain piece = [piece]
  other : ∃ key given, piece = key ++ 61 :: given ∧ 61 ∉ key ∧ lower (trim key) ≠ encoded "boundary"
  text : textParameter? name piece = some value.toList

theorem splitAtFirst_equals {key given : List UInt8} (hkey : 61 ∉ key) :
    splitAtFirst [61] (key ++ 61 :: given) = some (key, given) :=
  splitAtFirst_eq_some_iff.mpr ⟨rfl, fun _ hd e => hkey (e ▸ hd)⟩

section Values

variable {name : String} (hname : name = "name" ∨ name = "filename")
include hname

/-- A name is one piece with the blank before it, and not the boundary's. -/
theorem parameterName_free : ∀ mark ∈ ["", "*"],
    (34 ∉ encoded (" " ++ name ++ mark) ∧ 59 ∉ encoded (" " ++ name ++ mark)) ∧
    61 ∉ encoded (" " ++ name ++ mark) ∧ lower (trim (encoded (" " ++ name ++ mark))) = encoded (name ++ mark) ∧
    encoded (name ++ mark) ≠ encoded "boundary" := by
  rcases hname with rfl | rfl
  · decide
  · decide

theorem quoted_readsAs (value : String) :
    ReadsAs (encoded (" " ++ (name ++ "=\"" ++ String.ofList (value.toList.flatMap escapeQuoted) ++ "\""))) name value := by
  obtain ⟨hplain, hequals, hkey, hother⟩ := parameterName_free hname "" (by simp)
  have hvalue : encoded (" " ++ (name ++ "=\"" ++ String.ofList (value.toList.flatMap escapeQuoted) ++ "\"")) =
      encoded (" " ++ name ++ "") ++ 61 :: (34 :: (bytes (value.toList.flatMap escapeQuoted) ++ [34])) := by
    have hopen : encoded "=\"" = [61, 34] := by decide
    have hquote : encoded "\"" = [34] := by decide
    have hnone : encoded "" = [] := rfl
    have hinner : encoded (String.ofList (value.toList.flatMap escapeQuoted)) =
        bytes (value.toList.flatMap escapeQuoted) := by rw [encoded, String.toList_ofList]
    simp only [encoded_append, hopen, hquote, hinner, hnone, List.append_assoc, List.cons_append, List.nil_append]
  rw [hvalue]
  constructor
  · apply segments_plain hplain
    exact segments_cons (by decide) (segments_cons (by decide) (segments_escaped _))
  · exact ⟨_, _, rfl, hequals, hkey.trans_ne hother⟩
  · rw [textParameter?, splitAtFirst_equals hequals, Option.bind_some]
    dsimp only
    rw [if_pos (hkey.trans (congrArg encoded (String.append_empty))), ← List.cons_append, trim_quoted]
    show some (lossy (unescaped (bytes (value.toList.flatMap escapeQuoted) ++ [34]))) = _
    rw [unescaped_escaped, lossy_bytes]

theorem percentEncoded_readsAs (value : String) :
    ReadsAs (encoded (" " ++ (name ++ "*=utf-8''" ++ percentEncode value.toUTF8.toList))) name value := by
  obtain ⟨hplain, hequals, hkey, hother⟩ := parameterName_free hname "*" (by simp)
  have hvalue : encoded (" " ++ (name ++ "*=utf-8''" ++ percentEncode value.toUTF8.toList)) =
      encoded (" " ++ name ++ "*") ++ 61 :: (encoded "utf-8''" ++ encoded (percentEncode value.toUTF8.toList)) := by
    have hopen : encoded "*=utf-8''" = encoded "*" ++ 61 :: encoded "utf-8''" := by decide
    simp only [encoded_append, hopen, List.append_assoc, List.cons_append]
  have hcharset : ∀ b ∈ encoded "utf-8''", b ≠ 34 ∧ b ≠ 59 ∧ isBlank b = false := by decide
  have hgiven : ∀ b ∈ encoded "utf-8''" ++ encoded (percentEncode value.toUTF8.toList),
      b ≠ 34 ∧ b ≠ 59 ∧ isBlank b = false := by
    intro b hb
    rcases List.mem_append.mp hb with hb | hb
    · exact hcharset b hb
    · exact percentEncode_free hb
  have hstar : lower (trim (encoded (" " ++ name ++ "*"))) ≠ encoded name := by
    rw [hkey, encoded_append]
    intro he
    have hlength := congrArg List.length he
    rw [List.length_append] at hlength
    exact absurd hlength (Nat.ne_of_gt (Nat.lt_add_of_pos_right (by decide)))
  rw [hvalue]
  constructor
  · apply segments_plain hplain
    apply segments_cons (by decide)
    have hall := segments_plain ⟨fun h => (hgiven 34 h).1 rfl, fun h => (hgiven 59 h).2.1 rfl⟩
      (show segments .plain [] = [[]] from rfl)
    rwa [List.append_nil] at hall
  · exact ⟨_, _, rfl, hequals, hkey.trans_ne hother⟩
  · rw [textParameter?, splitAtFirst_equals hequals, Option.bind_some]
    dsimp only
    have hprefix : encoded "utf-8''" <+: lower (encoded "utf-8''" ++ encoded (percentEncode value.toUTF8.toList)) := by
      rw [lower, List.map_append]
      exact List.prefix_append (encoded "utf-8''") _
    rw [if_neg hstar, trim_of_free fun b hb => (hgiven b hb).2.2, if_pos ⟨hkey.trans (encoded_append name "*"), hprefix⟩]
    show some (lossy (percentDecoded (encoded (percentEncode value.toUTF8.toList)))) = _
    rw [percentDecoded_percentEncode, toUTF8_toList, encoded, lossy_bytes]

theorem parameterText_readsAs (value : String) : ReadsAs (encoded (" " ++ parameterText name value)) name value := by
  unfold parameterText
  split
  · exact quoted_readsAs hname value
  · exact percentEncoded_readsAs hname value

end Values

/-- The value of a field: what it names, and one parameter. -/
theorem encoded_parameterized (kind name value : String) : encoded (" " ++ (kind ++ "; " ++ parameterText name value)) =
    encoded (" " ++ kind) ++ 59 :: encoded (" " ++ parameterText name value) := by
  have hsemicolon : encoded "; " = 59 :: encoded " " := by decide
  simp only [encoded_append, hsemicolon, List.append_assoc, List.cons_append]

/-- Letters that a field's value may begin with. -/
def Plain (kind : String) : Prop := ∀ c ∈ kind.toList, c ≠ '"' ∧ c ≠ ';' ∧ c ≠ ' ' ∧ c ≠ '\t'

variable {kind name value : String}

theorem Plain.free (h : Plain kind) : (34 ∉ encoded (" " ++ kind) ∧ 59 ∉ encoded (" " ++ kind)) ∧
    ∀ b ∈ encoded kind, isBlank b = false := by
  have hone : ∀ c ∈ (" " ++ kind).toList, c ≠ '"' ∧ c ≠ ';' := by
    intro c hc
    rw [String.toList_append, List.mem_append] at hc
    rcases hc with hc | hc
    · obtain rfl := List.mem_singleton.mp hc
      decide
    · exact ⟨(h c hc).1, (h c hc).2.1⟩
  refine ⟨⟨ascii_notMem_encoded (c := '"') (by decide) fun hm => (hone _ hm).1 rfl,
    ascii_notMem_encoded (c := ';') (by decide) fun hm => (hone _ hm).2 rfl⟩, ?_⟩
  intro b hb
  have hspace : (32 : UInt8) ∉ encoded kind := ascii_notMem_encoded (c := ' ') (by decide) fun hm => (h _ hm).2.2.1 rfl
  have htab : (9 : UInt8) ∉ encoded kind := ascii_notMem_encoded (c := '\t') (by decide) fun hm => (h _ hm).2.2.2 rfl
  have hne : b ≠ 32 ∧ b ≠ 9 := ⟨fun e => hspace (e ▸ hb), fun e => htab (e ▸ hb)⟩
  simp [isBlank, hne]

theorem value_reads_back (hkind : Plain kind) (hname : name = "name" ∨ name = "filename") :
    kindOf (encoded (" " ++ (kind ++ "; " ++ parameterText name value))) = encoded kind ∧
      textOf name (encoded (" " ++ (kind ++ "; " ++ parameterText name value))) = some value.toList := by
  have hreads := parameterText_readsAs hname value
  have hparts := @textOf_parameter _ name _ hkind.free.1 hreads.one
  have hspace : encoded (" " ++ kind) = 32 :: encoded kind := encoded_append " " kind
  rw [encoded_parameterized, hparts.1, hparts.2, hspace, trim_cons_blank (by decide), trim_of_free hkind.free.2]
  exact ⟨rfl, hreads.text⟩

variable {attachment : DraftAttachment}

theorem DraftAttachment.Accepted.plain (h : attachment.Accepted) : Plain attachment.mediaType := by
  intro c hc
  have hok := h.media c hc
  refine ⟨?_, ?_, ?_, ?_⟩
  all_goals
    rintro rfl
    exact absurd hok (by decide)

section Found

variable {header wanted : String} {fields : List Field}

theorem value?_found (h : lower (encoded header) = encoded wanted) :
    value? (field header value :: fields) wanted = some (encoded (" " ++ value)) := by
  rw [value?, List.find?_cons_of_pos (by simpa [field] using h)]
  rfl

theorem value?_passed (h : lower (encoded header) ≠ encoded wanted) :
    value? (field header value :: fields) wanted = value? fields wanted := by
  rw [value?, List.find?_cons_of_neg (by simpa [field] using h), value?]

end Found

/-- An attachment's media type, its file name in both places and its Content-ID are what a reader gets. -/
theorem attachment_reads_back (h : attachment.Accepted) :
    (∃ type, value? (attachmentFields attachment) "content-type" = some type ∧
      kindOf type = encoded attachment.mediaType ∧ textOf "name" type = some attachment.fileName.toList) ∧
    (∃ disposition, value? (attachmentFields attachment) "content-disposition" = some disposition ∧
      kindOf disposition = encoded (if attachment.isInline then "inline" else "attachment") ∧
      textOf "filename" disposition = some attachment.fileName.toList) ∧
    ∀ id, attachment.disposition = .inline id →
      value? (attachmentFields attachment) "content-id" = some (encoded (" <" ++ id.text ++ ">")) := by
  have hinline : Plain "inline" := by unfold Plain; decide
  have hregular : Plain "attachment" := by unfold Plain; decide
  have htype : lower (encoded "Content-Type") = encoded "content-type" ∧
      lower (encoded "Content-Type") ≠ encoded "content-disposition" ∧
      lower (encoded "Content-Type") ≠ encoded "content-id" := by decide
  have hcoding : lower (encoded "Content-Transfer-Encoding") ≠ encoded "content-disposition" ∧
      lower (encoded "Content-Transfer-Encoding") ≠ encoded "content-id" := by decide
  have hrest : ∀ wanted ∈ ["content-disposition", "content-id"], value? (attachmentFields attachment) wanted =
      value? (dispositionFields attachment.fileName attachment.disposition) wanted := by
    intro wanted hwanted
    rcases List.mem_cons.mp hwanted with rfl | hwanted
    · exact (value?_passed htype.2.1).trans (value?_passed hcoding.1)
    · rw [List.mem_singleton.mp hwanted]
      exact (value?_passed htype.2.2).trans (value?_passed hcoding.2)
  refine ⟨⟨_, value?_found htype.1, value_reads_back h.plain (.inl rfl)⟩, ?_, ?_⟩
  · rw [hrest _ List.mem_cons_self, DraftAttachment.isInline]
    cases attachment.disposition with
    | inline id =>
      have hid : lower (encoded "Content-ID") ≠ encoded "content-disposition" := by decide
      have hopen : "inline; " = "inline" ++ "; " := by decide
      refine ⟨_, (value?_passed hid).trans (value?_found (by decide)), ?_⟩
      simp only [toString, hopen]
      exact value_reads_back hinline (.inr rfl)
    | attachment =>
      have hopen : "attachment; " = "attachment" ++ "; " := by decide
      refine ⟨_, value?_found (by decide), ?_⟩
      simp only [toString, hopen]
      exact value_reads_back hregular (.inr rfl)
  · intro id hd
    rw [hrest _ (by simp), hd]
    exact value?_found (by decide)

end Rfc5322
end SyncEngine
