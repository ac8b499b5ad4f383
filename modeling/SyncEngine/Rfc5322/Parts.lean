import SyncEngine.Library.Base64
import SyncEngine.Rfc5322.Parameters
import SyncEngine.Rfc5322.Unbroken

/-!
# The parts of a message, read back

A reader that cuts a message at its boundaries finds the parts of its draft, unless the method of the calendar object
breaks a line, that object does not end with a line break, or a line of the text or of its HTML form begins like a
delimiter of a multipart it is in: the boundaries come from the identifier of the message alone.
-/

namespace SyncEngine
namespace Rfc5322

open Utf8

open Multipart

open Utf8 (encoded encoded_append)
open Crlf (Field IsLine join)
open Multipart (Entity Leaf leaves entity joined opens decodeBase64 sextet?)

/-! ## Base64 -/

section Base64

theorem sextet?_symbol {v : Nat} (h : v < 64) :
    sextet? (ascii (Base64.symbol v)) = some v ∧ ascii (Base64.symbol v) ≠ 61 := by
  have htable : ∀ n < 64, sextet? (ascii (Base64.symbol n)) = some n ∧ ascii (Base64.symbol n) ≠ 61 := by decide +kernel
  exact htable v h

theorem decodeBase64_group {s₁ s₂ s₃ s₄ : UInt8} {rest bytes : List UInt8} {n₁ n₂ n₃ n₄ : Nat}
    (h₁ : sextet? s₁ = some n₁) (h₂ : sextet? s₂ = some n₂) (h₃ : sextet? s₃ = some n₃ ∧ s₃ ≠ 61)
    (h₄ : sextet? s₄ = some n₄ ∧ s₄ ≠ 61) (hrest : decodeBase64 rest = some bytes) :
    decodeBase64 (s₁ :: s₂ :: s₃ :: s₄ :: rest) =
      some (UInt8.ofNat (n₁ * 4 + n₂ / 16) :: UInt8.ofNat (n₂ % 16 * 16 + n₃ / 4) :: UInt8.ofNat (n₃ % 4 * 64 + n₄) ::
        bytes) := by
  rw [decodeBase64, h₁, h₂, h₃.1, h₄.1, hrest]
  · rfl
  · intro _ hd _
    exact h₄.2 hd
  · intro hd _
    exact h₄.2 hd

/-- Six bits of one letter and two of the next make a byte again, and so on. -/
theorem joined_bytes (a b c : UInt8) : UInt8.ofNat (a.toNat / 4 * 4 + (a.toNat % 4 * 16 + b.toNat / 16) / 16) = a ∧
      UInt8.ofNat ((a.toNat % 4 * 16 + b.toNat / 16) % 16 * 16 + (b.toNat % 16 * 4 + c.toNat / 64) / 4) = b ∧
      UInt8.ofNat ((b.toNat % 16 * 4 + c.toNat / 64) % 4 * 64 + c.toNat % 64) = c := by
  have ha := a.toNat_lt
  have hb := b.toNat_lt
  have hc := c.toNat_lt
  have hfirst : a.toNat / 4 * 4 + (a.toNat % 4 * 16 + b.toNat / 16) / 16 = a.toNat := by omega
  have hsecond : (a.toNat % 4 * 16 + b.toNat / 16) % 16 * 16 + (b.toNat % 16 * 4 + c.toNat / 64) / 4 = b.toNat := by omega
  have hthird : (b.toNat % 16 * 4 + c.toNat / 64) % 4 * 64 + c.toNat % 64 = c.toNat := by omega
  rw [hfirst, hsecond, hthird]
  exact ⟨UInt8.ofNat_toNat, UInt8.ofNat_toNat, UInt8.ofNat_toNat⟩

theorem decodeBase64_encode : ∀ bytes : List UInt8, decodeBase64 ((Base64.encode bytes).map ascii) = some bytes
  | [] => rfl
  | [a] => by
    have ha := a.toNat_lt
    have h₁ := sextet?_symbol (v := a.toNat / 4) (by omega)
    have h₂ := sextet?_symbol (v := a.toNat % 4 * 16) (by omega)
    have hbyte := (joined_bytes a 0 0).1
    rw [Base64.encode_one]
    show decodeBase64 [_, _, 61, 61] = _
    rw [decodeBase64, h₁.1, h₂.1]
    exact congrArg (fun b => some [b]) hbyte
  | [a, b] => by
    have ha := a.toNat_lt
    have hb := b.toNat_lt
    have h₁ := sextet?_symbol (v := a.toNat / 4) (by omega)
    have h₂ := sextet?_symbol (v := a.toNat % 4 * 16 + b.toNat / 16) (by omega)
    have h₃ := sextet?_symbol (v := b.toNat % 16 * 4) (by omega)
    obtain ⟨hfirst, hsecond, -⟩ := joined_bytes a b 0
    rw [Base64.encode_two]
    show decodeBase64 [_, _, _, 61] = _
    rw [decodeBase64, h₁.1, h₂.1, h₃.1]
    · show some [UInt8.ofNat _, UInt8.ofNat _] = _
      rw [hfirst]
      exact congrArg (fun b => some [_, b]) hsecond
    · exact h₃.2
  | a :: b :: c :: rest => by
    have ha := a.toNat_lt
    have hb := b.toNat_lt
    have hc := c.toNat_lt
    have h₁ := sextet?_symbol (v := a.toNat / 4) (by omega)
    have h₂ := sextet?_symbol (v := a.toNat % 4 * 16 + b.toNat / 16) (by omega)
    have h₃ := sextet?_symbol (v := b.toNat % 16 * 4 + c.toNat / 64) (by omega)
    have h₄ := sextet?_symbol (v := c.toNat % 64) (by omega)
    obtain ⟨hfirst, hsecond, hthird⟩ := joined_bytes a b c
    rw [Base64.encode_three, List.map_cons, List.map_cons, List.map_cons, List.map_cons,
      decodeBase64_group h₁.1 h₂.1 h₃ h₄ (decodeBase64_encode rest), hfirst, hsecond, hthird]

end Base64

/-! ## Texts with their line breaks normalised -/

/-- A text with every line break as CR LF. -/
def crlf : List Char → List Char
  | [] => []
  | '\r' :: '\n' :: rest => '\r' :: '\n' :: crlf rest
  | c :: rest => if c = '\r' ∨ c = '\n' then '\r' :: '\n' :: crlf rest else c :: crlf rest

def EndsLine (text : List Char) : Prop := ∀ c ∈ text.getLast?, c = '\r' ∨ c = '\n'

variable (text : List Char)

theorem normalizeBodyLines_ne_nil : normalizeBodyLines text ≠ [] := by
  induction text using normalizeBodyLines.induct with
  | case1 => exact List.cons_ne_nil _ _
  | case2 rest ih =>
    rw [normalizeBodyLines]
    exact List.cons_ne_nil _ _
  | case3 c rest hpair hc ih =>
    rw [normalizeBodyLines, if_pos hc]
    · exact List.cons_ne_nil _ _
    · exact hpair
  | case4 c rest hpair hc hnil ih => exact absurd hnil ih
  | case5 c rest hpair hc first others hrest ih =>
    rw [normalizeBodyLines, if_neg hc, hrest]
    · exact List.cons_ne_nil _ _
    · exact hpair

theorem joined_nil_cons {ls : List (List UInt8)} (h : ls ≠ []) : joined ([] :: ls) = 13 :: 10 :: joined ls := by
  cases ls with
  | nil => exact absurd rfl h
  | cons l ls => rfl

theorem joined_append_cons (bytes l : List UInt8) (ls : List (List UInt8)) :
    joined ((bytes ++ l) :: ls) = bytes ++ joined (l :: ls) := by
  cases ls with
  | nil => rfl
  | cons l' ls => exact List.append_assoc _ _ _

theorem joined_normalizeBodyLines : joined ((normalizeBodyLines text).map bytes) = bytes (crlf text) := by
  have hbreak : ∀ rest : List Char, bytes ('\r' :: '\n' :: rest) = 13 :: 10 :: bytes rest := by
    intro rest
    have hcr : String.utf8EncodeChar '\r' = [13] := by decide
    have hlf : String.utf8EncodeChar '\n' = [10] := by decide
    rw [bytes_cons, bytes_cons, hcr, hlf]
    rfl
  have hmap : ∀ rest : List Char, (normalizeBodyLines rest).map bytes ≠ [] := by
    intro rest h
    exact normalizeBodyLines_ne_nil rest (List.map_eq_nil_iff.mp h)
  induction text using normalizeBodyLines.induct with
  | case1 => rfl
  | case2 rest ih =>
    rw [normalizeBodyLines, List.map_cons, crlf, hbreak, ← ih]
    exact joined_nil_cons (hmap rest)
  | case3 c rest hpair hc ih =>
    rw [normalizeBodyLines, if_pos hc, List.map_cons, crlf, if_pos hc, hbreak, ← ih]
    · exact joined_nil_cons (hmap rest)
    · exact hpair
    · exact hpair
  | case4 c rest hpair hc hnil ih => exact absurd hnil (normalizeBodyLines_ne_nil rest)
  | case5 c rest hpair hc first others hrest ih =>
    rw [hrest, List.map_cons] at ih
    rw [normalizeBodyLines, if_neg hc, hrest, crlf, if_neg hc, bytes_cons, ← ih]
    · exact joined_append_cons _ _ _
    · exact hpair
    · exact hpair

/-- Only an empty text is one empty line. -/
theorem eq_nil_of_normalizeBodyLines {text : List Char} (h : normalizeBodyLines text = [[]]) : text = [] := by
  induction text using normalizeBodyLines.induct with
  | case1 => rfl
  | case2 rest ih =>
    rw [normalizeBodyLines, List.cons.injEq] at h
    exact absurd h.2 (normalizeBodyLines_ne_nil rest)
  | case3 c rest hpair hc ih =>
    rw [normalizeBodyLines, if_pos hc, List.cons.injEq] at h
    · exact absurd h.2 (normalizeBodyLines_ne_nil rest)
    · exact hpair
  | case4 c rest hpair hc hnil ih => exact absurd hnil (normalizeBodyLines_ne_nil rest)
  | case5 c rest hpair hc first others hrest ih =>
    rw [normalizeBodyLines, if_neg hc, hrest, List.cons.injEq] at h
    · exact absurd h.1 (List.cons_ne_nil _ _)
    · exact hpair

theorem getLast?_normalizeBodyLines : (normalizeBodyLines text).getLast? = some [] ↔ EndsLine text := by
  have hcons : ∀ (l : List Char) (rest : List Char),
      (l :: normalizeBodyLines rest).getLast? = (normalizeBodyLines rest).getLast? := by
    intro l rest
    obtain ⟨first, others, hrest⟩ := List.exists_cons_of_ne_nil (normalizeBodyLines_ne_nil rest)
    rw [hrest, List.getLast?_cons_cons]
  have hends : ∀ (c : Char) (rest : List Char), EndsLine (c :: rest) ↔
      (rest = [] ∧ (c = '\r' ∨ c = '\n')) ∨ (rest ≠ [] ∧ EndsLine rest) := by
    intro c rest
    cases rest with
    | nil => simp [EndsLine]
    | cons d rest => simp [EndsLine]
  have hnil : EndsLine [] := by simp [EndsLine]
  induction text using normalizeBodyLines.induct with
  | case1 => exact ⟨fun _ => hnil, fun _ => rfl⟩
  | case2 rest ih =>
    have hih : (normalizeBodyLines rest).getLast? = some [] ↔ EndsLine rest := ih
    rw [normalizeBodyLines, hcons, hih, hends, hends]
    by_cases hrest : rest = []
    · simp [hrest, hnil]
    · simp [hrest]
  | case3 c rest hpair hc ih =>
    have hih : (normalizeBodyLines rest).getLast? = some [] ↔ EndsLine rest := ih
    rw [normalizeBodyLines, if_pos hc, hcons, hih, hends]
    · by_cases hrest : rest = []
      · simp [hrest, hc, hnil]
      · simp [hrest]
    · exact hpair
  | case4 c rest hpair hc hnone ih => exact absurd hnone (normalizeBodyLines_ne_nil rest)
  | case5 c rest hpair hc first others hrest ih =>
    rw [hrest] at ih
    rw [normalizeBodyLines, if_neg hc, hrest, hends]
    · cases others with
      | nil =>
        have hopen : ¬(rest ≠ [] ∧ EndsLine rest) := by
          rintro ⟨hne, hend⟩
          have hfirst : first = [] := by simpa using ih.mpr hend
          rw [hfirst] at hrest
          exact hne (eq_nil_of_normalizeBodyLines hrest)
        simp [hc, hopen]
      | cons other others =>
        rw [List.getLast?_cons_cons] at ih ⊢
        have hne : rest ≠ [] := by
          rintro rfl
          cases hrest
        have hih : (other :: others).getLast? = some [] ↔ EndsLine rest := ih
        rw [hih]
        simp [hne]
    · exact hpair

/-! ## The boundary of each part -/

variable (value : String)

theorem boundary?_content (fields : List Field) :
    Multipart.boundary? (field "Content-Type" value :: fields) = Multipart.boundaryOf (encoded (" " ++ value)) := by
  have hname : Multipart.lower (encoded "Content-Type") = encoded "content-type" := by decide
  have hfind : (field "Content-Type" value :: fields).find? (fun f => Multipart.lower f.name = encoded "content-type") =
      some (field "Content-Type" value) := List.find?_cons_of_pos (by simpa [field] using hname)
  rw [Multipart.boundary?, Multipart.value?, hfind]
  rfl

theorem boundary?_text {kind : String} (h : kind = "plain" ∨ kind = "html") :
    Multipart.boundary? (textFields kind) = none := by
  rw [textFields, boundary?_content]
  rcases h with rfl | rfl
  · decide
  · decide

variable (calendar : DraftCalendar)

theorem boundary?_calendar : Multipart.boundary? (calendarFields calendar) = none := by
  have hopen : encoded " text/calendar; charset=utf-8; method=" =
      encoded " text/calendar" ++ 59 :: encoded " charset=utf-8; method=" := by decide
  have hvalue : encoded (" " ++ ("text/calendar; charset=utf-8; method=" ++ toAsciiUppercase calendar.method.asStr)) =
      encoded " text/calendar" ++
        59 :: (encoded " charset=utf-8; method=" ++ encoded (toAsciiUppercase calendar.method.asStr)) := by
    have hspace : " " ++ "text/calendar; charset=utf-8; method=" = " text/calendar; charset=utf-8; method=" := rfl
    rw [← String.append_assoc, hspace, encoded_append, hopen, List.append_assoc, List.cons_append]
  have hfields : calendarFields calendar =
      field "Content-Type" ("text/calendar; charset=utf-8; method=" ++ toAsciiUppercase calendar.method.asStr) ::
        [field "Content-Transfer-Encoding" "base64"] := rfl
  rw [hfields, boundary?_content, hvalue]
  exact boundaryOf_single (by decide) (by decide)

theorem boundary?_multipart {kind messageId : String} (h : kind ∈ ["alternative", "related", "mixed"]) :
    Multipart.boundary? (multipartFields kind (boundary messageId kind)) = some (encoded (boundary messageId kind)) := by
  have hkind : ∀ c ∈ kind.toList, c.isAlphanum = true := by
    simp only [List.mem_cons, List.not_mem_nil, or_false] at h
    rcases h with rfl | rfl | rfl
    · decide
    · decide
    · decide
  have hfree : ∀ c : Char, c.toNat < 128 → ¬(c.isAlphanum = true ∨ c = '_' ∨ c = '=') →
      ascii c ∉ encoded (boundary messageId kind) :=
    fun c hc hnot => ascii_notMem_encoded hc fun hm => hnot (boundary_letters hkind c hm)
  have hquote : (34 : UInt8) ∉ encoded (boundary messageId kind) := hfree '"' (by decide) (by decide)
  have hescape : (92 : UInt8) ∉ encoded (boundary messageId kind) := hfree '\\' (by decide) (by decide)
  have hvalue : encoded (" " ++ ("multipart/" ++ kind ++ "; boundary=\"" ++ boundary messageId kind ++ "\"")) =
      encoded (" multipart/" ++ kind) ++
        59 :: (encoded " boundary" ++ 61 :: 34 :: (encoded (boundary messageId kind) ++ [34])) := by
    have hopen : encoded " " ++ encoded "multipart/" = encoded " multipart/" := by decide
    have hmiddle : encoded "; boundary=\"" = 59 :: (encoded " boundary" ++ [61, 34]) := by decide
    have hclose : encoded "\"" = [34] := by decide
    simp only [encoded_append, hmiddle, hclose, ← hopen, List.append_assoc, List.cons_append, List.nil_append]
  have hfields : multipartFields kind (boundary messageId kind) =
      [field "Content-Type" ("multipart/" ++ kind ++ "; boundary=\"" ++ boundary messageId kind ++ "\"")] := rfl
  rw [hfields, boundary?_content, hvalue]
  apply boundaryOf_quoted _ _ (by decide) (by decide) ⟨hquote, hescape⟩
  · simp only [List.mem_cons, List.not_mem_nil, or_false] at h
    rcases h with rfl | rfl | rfl
    · decide
    · decide
    · decide
  · simp only [List.mem_cons, List.not_mem_nil, or_false] at h
    rcases h with rfl | rfl | rfl
    · decide
    · decide
    · decide

variable {attachment : DraftAttachment}

theorem boundary?_attachment (h : attachment.Accepted) : Multipart.boundary? (attachmentFields attachment) = none := by
  have hfirst : ∃ fields, attachmentFields attachment =
      field "Content-Type" (attachment.mediaType ++ "; " ++ parameterText "name" attachment.fileName) :: fields :=
    ⟨_, rfl⟩
  obtain ⟨fields, hfields⟩ := hfirst
  obtain ⟨hone, ⟨key, given, hpiece, hkey, hother⟩, -⟩ := parameterText_readsAs (.inl rfl) attachment.fileName
  rw [hpiece] at hone
  rw [hfields, boundary?_content, encoded_parameterized, hpiece]
  exact boundaryOf_other h.plain.free.1 hone hkey hother

/-! ## Reading one entity -/

/-- An entity whose fields are content fields and whose lines are whole. -/
structure Proper (e : Entity) : Prop where
  whole : Whole e
  content : ∀ f ∈ e.fields, Multipart.isContent f = true

variable {e : Entity}

theorem entity_envelope (h : Proper e) {envelope : List Field} (hvalid : ∀ f ∈ envelope, f.Valid)
    (hother : ∀ f ∈ envelope, Multipart.isContent f = false) :
    entity ((envelope ++ e.fields).map Field.line ++ [] :: e.body) = e := by
  have hall : ∀ f ∈ envelope ++ e.fields, f.Valid := List.forall_mem_append.mpr ⟨hvalid, h.whole.fields⟩
  have hdrop : ((envelope ++ e.fields).map Field.line ++ [] :: e.body).dropWhile (· ≠ []) = [] :: e.body := by
    rw [List.dropWhile_append_of_pos]
    · simp
    · intro l hl
      exact decide_eq_true fun he => Crlf.nil_notMem_lines _ (he ▸ hl)
  have hread : ((envelope ++ e.fields).map Field.line).filterMap Crlf.field? = envelope ++ e.fields := by
    rw [List.filterMap_map]
    have hsome : ∀ f ∈ envelope ++ e.fields, (Crlf.field? ∘ Field.line) f = some f := fun f hf => (hall f hf).field?
    rw [List.filterMap_congr hsome, List.filterMap_some]
  have hfilter : (envelope ++ e.fields).filter Multipart.isContent = e.fields := by
    rw [List.filter_append, List.filter_eq_nil_iff.mpr (fun f hf => by simp [hother f hf]),
      List.filter_eq_self.mpr h.content, List.nil_append]
  unfold entity
  rw [Crlf.takeWhile_lines, Crlf.unfolded_lines hall, hread, hfilter, hdrop]
  rfl

theorem entity_linesOf (h : Proper e) : entity (linesOf e) = e := @entity_envelope e h [] (by simp) (by simp)

theorem isContent_field {name : String} (h : encoded "content-" <+: Multipart.lower (encoded name)) (value : String) :
    Multipart.isContent (field name value) = true := decide_eq_true h

theorem proper_text {kind text : String} (h : OneLine kind) : Proper (textEntity kind text) where
  whole := whole_text h
  content := by
    intro f hf
    obtain rfl := List.mem_singleton.mp hf
    exact isContent_field (by decide) _

theorem proper_calendar {calendar : DraftCalendar} (h : OneLine calendar.method.asStr) :
    Proper (calendarEntity calendar) where
  whole := whole_calendar h
  content := List.forall_mem_cons.mpr ⟨isContent_field (by decide) _,
    List.forall_mem_singleton.mpr (isContent_field (by decide) _)⟩

theorem proper_attachment (h : attachment.Accepted) : Proper (attachmentEntity attachment) where
  whole := whole_attachment h
  content := by
    refine List.forall_mem_cons.mpr ⟨isContent_field (by decide) _, List.forall_mem_cons.mpr
      ⟨isContent_field (by decide) _, ?_⟩⟩
    cases hd : attachment.disposition with
    | inline contentId =>
      exact List.forall_mem_cons.mpr ⟨isContent_field (by decide) _,
        List.forall_mem_singleton.mpr (isContent_field (by decide) _)⟩
    | attachment => exact List.forall_mem_singleton.mpr (isContent_field (by decide) _)

theorem proper_multipart {kind messageId : String} {entities : List Entity}
    (h : kind ∈ ["alternative", "related", "mixed"]) (hall : ∀ e ∈ entities, Proper e) :
    Proper (multipartEntity kind (boundary messageId kind) entities) := by
  have hkind : OneLine kind ∧ ∀ c ∈ kind.toList, c.isAlphanum = true := by
    simp only [List.mem_cons, List.not_mem_nil, or_false] at h
    rcases h with rfl | rfl | rfl
    · exact ⟨by decide, by decide⟩
    · exact ⟨by decide, by decide⟩
    · exact ⟨by decide, by decide⟩
  refine ⟨whole_multipart hkind.1 (oneLine_boundary hkind.2) fun e he => (hall e he).whole, ?_⟩
  intro f hf
  obtain rfl := List.mem_singleton.mp hf
  exact isContent_field (by decide) _

/-! ## Leaves -/

def textLeaf (kind text : String) : Leaf := ⟨textFields kind, bytes (crlf text.toList)⟩

def calendarLeaf (calendar : DraftCalendar) : Leaf := ⟨calendarFields calendar, bytes (crlf calendar.ical.toList)⟩

def attachmentLeaf (attachment : DraftAttachment) : Leaf := ⟨attachmentFields attachment, attachment.content⟩

def bodyLeaves (content : Content) : List Leaf :=
  textLeaf "plain" content.textBody ::
    (content.htmlBody.toList.map (textLeaf "html") ++ content.calendar.toList.map calendarLeaf)

/-- The parts of a draft in the order of the message: its text, the other forms of it, the inline attachments and the
regular ones. -/
def draftLeaves (content : Content) : List Leaf :=
  bodyLeaves content ++ content.inline.map attachmentLeaf ++ content.regular.map attachmentLeaf

theorem isBase64_text (kind : String) : Multipart.isBase64 (textFields kind) = false := by
  have hname : ¬ Multipart.lower (encoded "Content-Type") = encoded "content-transfer-encoding" := by decide
  have hfind : (textFields kind).find? (fun f => Multipart.lower f.name = encoded "content-transfer-encoding") = none :=
    List.find?_eq_none.mpr (by
      intro f hf
      obtain rfl := List.mem_singleton.mp hf
      simpa [field] using hname)
  rw [Multipart.isBase64, Multipart.value?, hfind]
  rfl

theorem isBase64_second (fields : List Field) :
    Multipart.isBase64 (field "Content-Type" value :: field "Content-Transfer-Encoding" "base64" :: fields) = true := by
  have hfirst : ¬ Multipart.lower (encoded "Content-Type") = encoded "content-transfer-encoding" := by decide
  have hsecond : Multipart.lower (encoded "Content-Transfer-Encoding") = encoded "content-transfer-encoding" := by
    decide
  have hfind : (field "Content-Type" value :: field "Content-Transfer-Encoding" "base64" :: fields).find?
      (fun f => Multipart.lower f.name = encoded "content-transfer-encoding") =
        some (field "Content-Transfer-Encoding" "base64") := by
    have hpos : decide (Multipart.lower (field "Content-Transfer-Encoding" "base64").name =
        encoded "content-transfer-encoding") = true := decide_eq_true hsecond
    rw [List.find?_cons_of_neg (by simpa [field] using hfirst)]
    exact List.find?_cons_of_pos hpos
  rw [Multipart.isBase64, Multipart.value?, hfind]
  decide

theorem flatten_base64Lines (content : List UInt8) :
    (base64Lines content).flatten = (Base64.encode content).map ascii := by
  rw [base64Lines, flatten_chunks (by decide), bytes_encode]

theorem leaves_text {kind text : String} (h : kind = "plain" ∨ kind = "html") (n : Nat) :
    leaves (n + 1) (textEntity kind text) = some [textLeaf kind text] := by
  have h64 : Multipart.isBase64 (textEntity kind text).fields = false := isBase64_text kind
  have hb : Multipart.boundary? (textEntity kind text).fields = none := boundary?_text h
  have hjoined : joined (textEntity kind text).body = bytes (crlf text.toList) := joined_normalizeBodyLines _
  rw [leaves_leaf hb, Entity.leaf?, Entity.content?, h64, hjoined]
  rfl

theorem leaves_base64 {fields : List Field} {content : List UInt8} (hb : Multipart.boundary? fields = none)
    (h64 : Multipart.isBase64 fields = true) (n : Nat) :
    leaves (n + 1) ⟨fields, base64Lines content⟩ = some [⟨fields, content⟩] := by
  rw [leaves_leaf hb, Entity.leaf?, Entity.content?, if_pos h64, flatten_base64Lines, decodeBase64_encode]
  rfl

theorem leaves_calendar (n : Nat) : leaves (n + 1) (calendarEntity calendar) =
      some [⟨calendarFields calendar, join ((calendarLines calendar.ical).map bytes)⟩] :=
  leaves_base64 (boundary?_calendar calendar) (isBase64_second _ _) n

theorem leaves_attachment (h : attachment.Accepted) (n : Nat) :
    leaves (n + 1) (attachmentEntity attachment) = some [attachmentLeaf attachment] :=
  leaves_base64 (boundary?_attachment h) (isBase64_second _ _) n

theorem calendarLeaf_iff : join ((calendarLines calendar.ical).map bytes) = bytes (crlf calendar.ical.toList) ↔
      EndsLine calendar.ical.toList := by
  have hne := normalizeBodyLines_ne_nil calendar.ical.toList
  rw [← joined_normalizeBodyLines, ← getLast?_normalizeBodyLines, calendarLines]
  generalize normalizeBodyLines calendar.ical.toList = lines at hne ⊢
  by_cases hlast : lines.getLast? = some []
  · obtain ⟨front, rfl⟩ := List.getLast?_eq_some_iff.mp hlast
    rw [if_pos hlast, List.dropLast_concat]
    have hjoin : joined ((front ++ [[]]).map bytes) = join (front.map bytes) := by
      clear hne hlast
      induction front with
      | nil => rfl
      | cons l front ih =>
        rw [List.map_cons, Crlf.join_cons, ← ih, List.cons_append, List.map_cons]
        have hcons : ∀ (bytes : List UInt8) (ls : List (List UInt8)), ls ≠ [] →
            joined (bytes :: ls) = bytes ++ 13 :: 10 :: joined ls := by
          intro bytes ls hls
          have happend := joined_append_cons bytes [] ls
          rwa [List.append_nil, joined_nil_cons hls] at happend
        exact hcons _ _ (by simp)
    exact ⟨fun _ => hlast, fun _ => hjoin.symm⟩
  · rw [if_neg hlast]
    have hmap : lines.map bytes ≠ [] := fun h => hne (List.map_eq_nil_iff.mp h)
    have hjoin := joined_break hmap
    constructor
    · intro h
      rw [← hjoin] at h
      have hlength := congrArg List.length h
      rw [List.length_append] at hlength
      simp at hlength
    · intro h
      exact absurd h hlast

/-! ## Delimiters -/

def Clear (boundary : String) (e : Entity) : Prop := ∀ l ∈ linesOf e, opens (encoded boundary) l = false

/-- No line of a text begins like a delimiter. -/
def Apart (boundary text : String) : Prop :=
  ∀ line ∈ normalizeBodyLines text.toList, opens (encoded boundary) (bytes line) = false

theorem opens_of_head {b l : List UInt8} (h : l.head? ≠ some 45) : opens b l = false := by
  rw [opens, decide_eq_false_iff_not]
  rintro ⟨rest, rfl⟩
  exact h rfl

theorem clear_of_body {boundary : String} (h : Proper e)
    (hbody : ∀ l ∈ e.body, opens (encoded boundary) l = false) : Clear boundary e := by
  intro l hl
  rcases List.mem_append.mp hl with hl | hl
  · obtain ⟨f, hf, rfl⟩ := List.mem_map.mp hl
    apply opens_of_head
    have hcontent := h.content f hf
    rw [Multipart.isContent, decide_eq_true_eq] at hcontent
    have hfirst : ∃ tail, encoded "content-" = 99 :: tail := ⟨[111, 110, 116, 101, 110, 116, 45], by decide⟩
    obtain ⟨tail, htail⟩ := hfirst
    obtain ⟨rest, hrest⟩ := hcontent
    intro hhead
    cases hname : f.name with
    | nil =>
      rw [hname, htail] at hrest
      exact nomatch hrest
    | cons b bs =>
      rw [Field.line, hname] at hhead
      obtain rfl := Option.some.inj hhead
      rw [hname, htail] at hrest
      exact absurd (List.cons.inj hrest).1 (by decide)
  · rcases List.mem_cons.mp hl with rfl | hl
    · exact opens_of_head (by simp)
    · exact hbody l hl

theorem clear_base64 {boundary : String} {content : List UInt8} (h : Proper e)
    (he : e.body = base64Lines content) : Clear boundary e := by
  apply clear_of_body h
  intro l hl
  rw [he] at hl
  apply opens_of_head
  intro hhead
  exact (base64Lines_letters hl).2 (List.mem_of_head? hhead)

/-- The kinds of multipart have boundaries that differ after what they have in common. -/
theorem opens_other {messageId kind kind' : String} (hne : kind ≠ kind')
    (h : kind ∈ ["alternative", "related", "mixed"]) (h' : kind' ∈ ["alternative", "related", "mixed"]) :
    opens (encoded (boundary messageId kind)) (delimiter (boundary messageId kind')) = false ∧
      opens (encoded (boundary messageId kind)) (closing (boundary messageId kind')) = false := by
  have hshape : ∀ kind : String, ∃ tail, encoded (boundary messageId kind) =
      encoded "=_pim_engine_" ++ (encoded kind ++ tail) := by
    intro kind
    unfold boundary
    dsimp only
    split
    · exact ⟨[], by simp only [toString, encoded_append, List.append_nil]⟩
    · refine ⟨?_, ?_⟩
      · exact encoded "_" ++ encoded (String.ofList
          ((messageId.toList.map fun c => if c.isAlphanum then c else '_').take 48))
      · simp only [toString, encoded_append, List.append_assoc]
  have hfirst : ∀ (t t' : List UInt8), ¬ encoded kind ++ t <+: encoded kind' ++ t' := by
    intro t t' hprefix
    have halternative : encoded "alternative" = 97 :: (encoded "alternative").tail := by decide
    have hrelated : encoded "related" = 114 :: (encoded "related").tail := by decide
    have hmixed : encoded "mixed" = 109 :: (encoded "mixed").tail := by decide
    simp only [List.mem_cons, List.not_mem_nil, or_false] at h h'
    rcases h with rfl | rfl | rfl <;> rcases h' with rfl | rfl | rfl
    all_goals first
      | exact hne rfl
      | (rw [halternative, hrelated] at hprefix; exact absurd (List.cons_prefix_cons.mp hprefix).1 (by decide))
      | (rw [halternative, hmixed] at hprefix; exact absurd (List.cons_prefix_cons.mp hprefix).1 (by decide))
      | (rw [hrelated, hmixed] at hprefix; exact absurd (List.cons_prefix_cons.mp hprefix).1 (by decide))
  obtain ⟨tail, htail⟩ := hshape kind
  obtain ⟨tail', htail'⟩ := hshape kind'
  have hnot : ∀ rest, opens (encoded (boundary messageId kind))
      (45 :: 45 :: (encoded (boundary messageId kind') ++ rest)) = false := by
    intro rest
    rw [opens, decide_eq_false_iff_not]
    intro hprefix
    have hboundary := (List.cons_prefix_cons.mp (List.cons_prefix_cons.mp hprefix).2).2
    rw [htail, htail', List.append_assoc, List.prefix_append_right_inj, List.append_assoc] at hboundary
    exact hfirst _ _ hboundary
  refine ⟨?_, hnot [45, 45]⟩
  have h := hnot []
  rwa [List.append_nil] at h

theorem clear_multipart {messageId kind kind' : String} {entities : List Entity} (hne : kind ≠ kind')
    (h : kind ∈ ["alternative", "related", "mixed"]) (h' : kind' ∈ ["alternative", "related", "mixed"])
    (hproper : ∀ e ∈ entities, Proper e) (hclear : ∀ e ∈ entities, Clear (boundary messageId kind) e) :
    Clear (boundary messageId kind) (multipartEntity kind' (boundary messageId kind') entities) := by
  obtain ⟨hdelimiter, hclosing⟩ := @opens_other messageId kind kind' hne h h'
  apply clear_of_body (proper_multipart h' hproper)
  intro l hl
  rcases List.mem_append.mp hl with hl | hl
  · obtain ⟨e, he, hl⟩ := List.mem_flatMap.mp hl
    rcases List.mem_cons.mp hl with rfl | hl
    · exact hdelimiter
    · exact hclear e he l hl
  · obtain rfl := List.mem_singleton.mp hl
    exact hclosing

theorem leaves_multipart {messageId kind : String} {entities : List Entity}
    (h : kind ∈ ["alternative", "related", "mixed"]) (hproper : ∀ e ∈ entities, Proper e)
    (hclear : ∀ e ∈ entities, Clear (boundary messageId kind) e) (n : Nat) :
    leaves (n + 1) (multipartEntity kind (boundary messageId kind) entities) =
      (entities.mapM (leaves n)).map List.flatten := by
  have hparts : Multipart.parts (encoded (boundary messageId kind))
      (multipartEntity kind (boundary messageId kind) entities).body = some (entities.map linesOf) := by
    have hwritten := @parts_written (encoded (boundary messageId kind)) (entities.map linesOf) (by
      intro p hp l hl
      obtain ⟨e, he, rfl⟩ := List.mem_map.mp hp
      exact hclear e he l hl)
    rw [List.flatMap_map] at hwritten
    exact hwritten
  rw [leaves_parts (boundary?_multipart h) hparts]
  congr 1
  clear hparts hclear
  induction entities with
  | nil => rfl
  | cons e entities ih =>
    rw [List.map_cons, List.mapM_cons, List.mapM_cons, entity_linesOf (hproper e List.mem_cons_self),
      ih fun e' he' => hproper e' (List.mem_cons_of_mem e he')]

/-! ## Reading a whole message -/

section Reading

variable {messageId kind : String} {content : Content}

def Content.texts (content : Content) : List String := content.textBody :: content.htmlBody.toList

def AllApart (boundary : String) (content : Content) : Prop := ∀ text ∈ content.texts, Apart boundary text

/-- What a draft has to be for its parts to be read back. -/
structure ReadsBack (messageId : String) (content : Content) : Prop where
  method : ∀ calendar ∈ content.calendar, OneLine calendar.method.asStr
  ical : ∀ calendar ∈ content.calendar, EndsLine calendar.ical.toList
  alternative : ¬(content.htmlBody = none ∧ content.calendar = none) →
    AllApart (boundary messageId "alternative") content
  related : content.inline ≠ [] → AllApart (boundary messageId "related") content
  mixed : content.regular ≠ [] → AllApart (boundary messageId "mixed") content

theorem clear_text {b text : String} (hkind : OneLine kind) (h : Apart b text) : Clear b (textEntity kind text) := by
  apply clear_of_body (proper_text hkind)
  intro l hl
  obtain ⟨line, hline, rfl⟩ := List.mem_map.mp hl
  exact h line hline

theorem flatten_mapM_leaves {entities : List Entity} {ls : List Leaf} {n : Nat}
    (h : List.Forall₂ (fun e l => leaves n e = some [l]) entities ls) :
    (entities.mapM (leaves n)).map List.flatten = some ls := by
  induction h with
  | nil => rfl
  | @cons e l entities ls he _ ih =>
    obtain ⟨inners, hinners, hflat⟩ := Option.map_eq_some_iff.mp ih
    rw [List.mapM_cons, he, hinners, ← hflat]
    rfl

theorem apart_of_leaves {e : Entity} {b text : String} {n : Nat} {out : List Leaf} (hwhole : Whole e)
    (hb : Multipart.boundary? e.fields = some (encoded b)) (h : leaves n e = some out) (hleaf : textLeaf kind text ∈ out) :
    Apart b text := by
  have hlines : ∀ l ∈ (normalizeBodyLines text.toList).map bytes, IsLine l := by
    intro l hl
    obtain ⟨line, hline, rfl⟩ := List.mem_map.mp hl
    exact isLine_of_mem_normalizeBodyLines hline
  have hfree := delimiter_notMem_leaf hb h hwhole.body hleaf (isBase64_text kind) hlines
    (joined_normalizeBodyLines text.toList).symm
  intro line hline
  exact hfree _ (List.mem_map.mpr ⟨line, hline, rfl⟩)

theorem mem_bodyLeaves_of_mem_texts {text : String} (h : text ∈ content.texts) :
    ∃ kind, textLeaf kind text ∈ bodyLeaves content := by
  rcases List.mem_cons.mp h with rfl | h
  · exact ⟨"plain", List.mem_cons_self⟩
  · exact ⟨"html", List.mem_cons_of_mem _ (List.mem_append_left _ (List.mem_map.mpr ⟨text, h, rfl⟩))⟩

theorem proper_body (hmethod : ∀ calendar ∈ content.calendar, OneLine calendar.method.asStr) :
    ∀ e ∈ textEntity "plain" content.textBody :: content.htmlBody.toList.map (textEntity "html") ++
      content.calendar.toList.map calendarEntity, Proper e := by
  intro e he
  rcases List.mem_append.mp he with he | he
  · rcases List.mem_cons.mp he with rfl | he
    · exact proper_text (by decide)
    · obtain ⟨html, -, rfl⟩ := List.mem_map.mp he
      exact proper_text (by decide)
  · obtain ⟨calendar, hcalendar, rfl⟩ := List.mem_map.mp he
    exact proper_calendar (hmethod calendar (Option.mem_toList.mp hcalendar))

theorem clear_body {b : String} (hmethod : ∀ calendar ∈ content.calendar, OneLine calendar.method.asStr)
    (h : AllApart b content) :
    ∀ e ∈ textEntity "plain" content.textBody :: content.htmlBody.toList.map (textEntity "html") ++
      content.calendar.toList.map calendarEntity, Clear b e := by
  intro e he
  rcases List.mem_append.mp he with he | he
  · rcases List.mem_cons.mp he with rfl | he
    · exact clear_text (by decide) (h _ List.mem_cons_self)
    · obtain ⟨html, hhtml, rfl⟩ := List.mem_map.mp he
      exact clear_text (by decide) (h html (List.mem_cons_of_mem _ hhtml))
  · obtain ⟨calendar, hcalendar, rfl⟩ := List.mem_map.mp he
    exact clear_base64 (proper_calendar (hmethod calendar (Option.mem_toList.mp hcalendar))) rfl

theorem leaves_body (hmethod : ∀ calendar ∈ content.calendar, OneLine calendar.method.asStr) (n : Nat) :
    leaves (n + 1 + 1) (bodyEntity messageId content) = some (bodyLeaves content) ↔
      (¬(content.htmlBody = none ∧ content.calendar = none) → AllApart (boundary messageId "alternative") content) ∧
        ∀ calendar ∈ content.calendar, EndsLine calendar.ical.toList := by
  have hnil : (content.htmlBody.toList.map (textEntity "html") = [] ∧ content.calendar.toList.map calendarEntity = []) ↔
      (content.htmlBody = none ∧ content.calendar = none) := by
    simp only [List.map_eq_nil_iff, Option.toList_eq_nil_iff]
  unfold bodyEntity
  dsimp only
  by_cases hsingle : content.htmlBody = none ∧ content.calendar = none
  · rw [if_pos (hnil.mpr hsingle), leaves_text (.inl rfl), bodyLeaves, hsingle.1, hsingle.2]
    exact ⟨fun _ => ⟨fun h => absurd ⟨rfl, rfl⟩ h, by simp⟩, fun _ => rfl⟩
  · rw [if_neg fun h => hsingle (hnil.mp h)]
    have hproper := proper_body hmethod
    have hkind : "alternative" ∈ ["alternative", "related", "mixed"] := by decide
    -- What is read where no line is a delimiter: all but the calendar object is as it was given.
    have hread : AllApart (boundary messageId "alternative") content →
        leaves (n + 1 + 1) (multipartEntity "alternative" (boundary messageId "alternative")
          (textEntity "plain" content.textBody :: content.htmlBody.toList.map (textEntity "html") ++
            content.calendar.toList.map calendarEntity)) =
        some (textLeaf "plain" content.textBody :: (content.htmlBody.toList.map (textLeaf "html") ++
          content.calendar.toList.map fun calendar =>
            ⟨calendarFields calendar, join ((calendarLines calendar.ical).map bytes)⟩)) := by
      intro hapart
      rw [leaves_multipart hkind hproper (clear_body hmethod hapart)]
      apply flatten_mapM_leaves
      refine .cons (leaves_text (.inl rfl) n) (List.rel_append ?_ ?_)
      · cases content.htmlBody with
        | none => exact .nil
        | some html => exact .cons (leaves_text (.inr rfl) n) .nil
      · cases content.calendar with
        | none => exact .nil
        | some calendar => exact .cons (leaves_calendar calendar n) .nil
    have hcalendar : (content.calendar.toList.map fun calendar =>
          (⟨calendarFields calendar, join ((calendarLines calendar.ical).map bytes)⟩ : Leaf)) =
        content.calendar.toList.map calendarLeaf ↔ ∀ calendar ∈ content.calendar, EndsLine calendar.ical.toList := by
      cases content.calendar with
      | none => simp
      | some calendar => simp [calendarLeaf, calendarLeaf_iff]
    constructor
    · intro h
      have hwhole := (@proper_multipart _ messageId _ hkind hproper).whole
      have hapart : AllApart (boundary messageId "alternative") content := by
        intro text htext
        obtain ⟨kind, hleaf⟩ := mem_bodyLeaves_of_mem_texts htext
        exact apart_of_leaves hwhole (boundary?_multipart hkind) h hleaf
      rw [hread hapart, bodyLeaves] at h
      have hlist := List.append_cancel_left (List.cons.inj (Option.some.inj h)).2
      exact ⟨fun _ => hapart, hcalendar.mp hlist⟩
    · rintro ⟨hapart, hends⟩
      rw [hread (hapart hsingle), bodyLeaves, hcalendar.mpr hends]

theorem leaves_enclose {e : Entity} {expected : List Leaf} {C : Prop} {attachments : List DraftAttachment} {m : Nat}
    (hkind : kind ∈ ["alternative", "related", "mixed"]) (he : Proper e)
    (hC : ∀ n, leaves (n + m + 1) e = some expected ↔ C)
    (htexts : ∀ text ∈ content.texts, ∃ kind, textLeaf kind text ∈ expected)
    (hclear : AllApart (boundary messageId kind) content → Clear (boundary messageId kind) e)
    (haccepted : ∀ a ∈ attachments, a.Accepted) (n : Nat) :
    leaves (n + (m + 1) + 1) (encloseEntity messageId kind e attachments) =
        some (expected ++ attachments.map attachmentLeaf) ↔
      (attachments ≠ [] → AllApart (boundary messageId kind) content) ∧ C := by
  unfold encloseEntity
  by_cases hnil : attachments = []
  · rw [if_pos hnil, hnil, List.map_nil, List.append_nil, show n + (m + 1) + 1 = n + 1 + m + 1 by omega, hC]
    exact ⟨fun h => ⟨fun hne => absurd rfl hne, h⟩, fun h => h.2⟩
  · rw [if_neg hnil]
    have hproper : ∀ e' ∈ e :: attachments.map attachmentEntity, Proper e' := by
      intro e' he'
      rcases List.mem_cons.mp he' with rfl | he'
      · exact he
      · obtain ⟨a, ha, rfl⟩ := List.mem_map.mp he'
        exact proper_attachment (haccepted a ha)
    have hattachments : (attachments.map attachmentEntity).mapM (leaves (n + m + 1)) =
        some (attachments.map fun a => [attachmentLeaf a]) := by
      clear hproper hnil
      induction attachments with
      | nil => rfl
      | cons a attachments ih =>
        rw [List.map_cons, List.mapM_cons, leaves_attachment (haccepted a List.mem_cons_self),
          ih fun a' ha' => haccepted a' (List.mem_cons_of_mem a ha')]
        rfl
    have hflat : (attachments.map fun a => [attachmentLeaf a]).flatten = attachments.map attachmentLeaf := by
      clear hproper hnil hattachments haccepted
      induction attachments with
      | nil => rfl
      | cons a attachments ih =>
        rw [List.map_cons, List.flatten_cons, ih, List.map_cons]
        rfl
    have hread : AllApart (boundary messageId kind) content →
        leaves (n + (m + 1) + 1) (multipartEntity kind (boundary messageId kind)
          (e :: attachments.map attachmentEntity)) =
        (leaves (n + m + 1) e).map fun inner => inner ++ attachments.map attachmentLeaf := by
      intro hapart
      have hclearAll : ∀ e' ∈ e :: attachments.map attachmentEntity, Clear (boundary messageId kind) e' := by
        intro e' he'
        rcases List.mem_cons.mp he' with rfl | he'
        · exact hclear hapart
        · obtain ⟨a, ha, rfl⟩ := List.mem_map.mp he'
          exact clear_base64 (proper_attachment (haccepted a ha)) rfl
      rw [leaves_multipart hkind hproper hclearAll, show n + (m + 1) = n + m + 1 by omega, List.mapM_cons, hattachments]
      cases leaves (n + m + 1) e with
      | none => rfl
      | some inner =>
        show some (inner ++ (attachments.map fun a => [attachmentLeaf a]).flatten) = _
        rw [hflat]
        rfl
    constructor
    · intro h
      have hwhole := (@proper_multipart _ messageId _ hkind hproper).whole
      have hapart : AllApart (boundary messageId kind) content := by
        intro text htext
        obtain ⟨kind', hleaf⟩ := htexts text htext
        exact apart_of_leaves hwhole (boundary?_multipart hkind) h (List.mem_append_left _ hleaf)
      rw [hread hapart] at h
      obtain ⟨inner, hinner, happend⟩ := Option.map_eq_some_iff.mp h
      rw [List.append_cancel_right happend] at hinner
      exact ⟨fun _ => hapart, (hC n).mp hinner⟩
    · rintro ⟨hapart, hc⟩
      rw [hread (hapart hnil), (hC n).mpr hc]
      rfl

theorem proper_bodyEntity (hmethod : ∀ calendar ∈ content.calendar, OneLine calendar.method.asStr) :
    Proper (bodyEntity messageId content) := by
  have hproper := proper_body hmethod
  unfold bodyEntity
  dsimp only
  split
  · exact hproper _ List.mem_cons_self
  · exact proper_multipart (by decide) hproper

theorem clear_bodyEntity (hmethod : ∀ calendar ∈ content.calendar, OneLine calendar.method.asStr)
    (hkind : kind ∈ ["related", "mixed"]) (h : AllApart (boundary messageId kind) content) :
    Clear (boundary messageId kind) (bodyEntity messageId content) := by
  have hclear := clear_body hmethod h
  have hkinds : kind ∈ ["alternative", "related", "mixed"] := List.mem_cons_of_mem _ hkind
  have hne : kind ≠ "alternative" := by
    rintro rfl
    exact absurd hkind (by decide)
  unfold bodyEntity
  dsimp only
  split
  · exact hclear _ List.mem_cons_self
  · exact clear_multipart hne hkinds (by decide) (proper_body hmethod) hclear

theorem leaves_content (haccepted : ∀ a ∈ content.attachments, a.Accepted)
    (hmethod : ∀ calendar ∈ content.calendar, OneLine calendar.method.asStr) (n : Nat) :
    Proper (contentEntity messageId content) ∧
      (leaves (n + (1 + 1 + 1) + 1) (contentEntity messageId content) = some (draftLeaves content) ↔
        ReadsBack messageId content) := by
  have hinline : ∀ a ∈ content.inline, a.Accepted := fun a ha => haccepted a (List.mem_filter.mp ha).1
  have hregular : ∀ a ∈ content.regular, a.Accepted := fun a ha => haccepted a (List.mem_filter.mp ha).1
  have henclosed : ∀ (kind : String) (e : Entity) (attachments : List DraftAttachment),
      kind ∈ ["alternative", "related", "mixed"] → Proper e → (∀ a ∈ attachments, a.Accepted) →
      ∀ e' ∈ e :: attachments.map attachmentEntity, Proper e' := by
    intro kind e attachments _ he ha e' he'
    rcases List.mem_cons.mp he' with rfl | he'
    · exact he
    · obtain ⟨a, hmem, rfl⟩ := List.mem_map.mp he'
      exact proper_attachment (ha a hmem)
  have hproper : ∀ (kind : String) (e : Entity) (attachments : List DraftAttachment),
      kind ∈ ["alternative", "related", "mixed"] → Proper e → (∀ a ∈ attachments, a.Accepted) →
      Proper (encloseEntity messageId kind e attachments) := by
    intro kind e attachments hkind he ha
    unfold encloseEntity
    split
    · exact he
    · exact proper_multipart hkind (henclosed kind e attachments hkind he ha)
  have hbody : Proper (bodyEntity messageId content) := proper_bodyEntity hmethod
  have hrelated := hproper "related" _ content.inline (by decide) hbody hinline
  have hclear : AllApart (boundary messageId "mixed") content → Clear (boundary messageId "mixed")
        (encloseEntity messageId "related" (bodyEntity messageId content) content.inline) := by
    intro hapart
    have hinner := clear_bodyEntity hmethod (by decide) hapart
    unfold encloseEntity
    split
    · exact hinner
    · apply clear_multipart (by decide) (by decide) (by decide)
        (henclosed "related" _ content.inline (by decide) hbody hinline)
      intro e' he'
      rcases List.mem_cons.mp he' with rfl | he'
      · exact hinner
      · obtain ⟨a, hmem, rfl⟩ := List.mem_map.mp he'
        exact clear_base64 (proper_attachment (hinline a hmem)) rfl
  have hfirst := @leaves_enclose messageId "related" content _ _ _ content.inline _ (by decide) hbody
    (leaves_body hmethod) (fun text htext => mem_bodyLeaves_of_mem_texts htext)
    (clear_bodyEntity hmethod (by decide)) hinline
  have htexts : ∀ text ∈ content.texts,
      ∃ kind, textLeaf kind text ∈ bodyLeaves content ++ content.inline.map attachmentLeaf := by
    intro text htext
    obtain ⟨kind, hleaf⟩ := mem_bodyLeaves_of_mem_texts htext
    exact ⟨kind, List.mem_append_left _ hleaf⟩
  have hsecond := @leaves_enclose messageId "mixed" content _ _ _ content.regular _ (by decide) hrelated hfirst htexts
    hclear hregular n
  refine ⟨hproper "mixed" _ content.regular (by decide) hrelated hregular, hsecond.trans ?_⟩
  constructor
  · rintro ⟨hmixed, hrelated, halternative, hical⟩
    exact ⟨hmethod, hical, halternative, hrelated, hmixed⟩
  · intro h
    exact ⟨h.mixed, h.related, h.alternative, h.ical⟩

end Reading

section Message

variable {δ : Type} {formatDate : δ → Except String String} {draft : Draft Content} {date : δ} {assembly : Assembly}
  {message : List UInt8}

theorem isContent_envelope {text : String} : ∀ f ∈ envelopeFields text draft assembly, Multipart.isContent f = false := by
  have hother : ∀ name ∈ ["Date", "Message-ID", "From", "To", "Cc", "Bcc", "In-Reply-To", "References", "Subject",
      "MIME-Version"], ∀ value, Multipart.isContent (field name value) = false := by
    have hnames : ∀ name ∈ ["Date", "Message-ID", "From", "To", "Cc", "Bcc", "In-Reply-To", "References", "Subject",
        "MIME-Version"], ¬ encoded "content-" <+: Multipart.lower (encoded name) := by decide
    intro name hname value
    exact decide_eq_false (hnames name hname)
  have haddresses : ∀ name ∈ ["To", "Cc", "Bcc"], ∀ addresses, ∀ f ∈ addressesField name addresses,
      Multipart.isContent f = false := by
    intro name hname addresses f hf
    unfold addressesField at hf
    split at hf
    · exact absurd hf List.not_mem_nil
    · obtain rfl := List.mem_singleton.mp hf
      apply hother
      simp only [List.mem_cons, List.not_mem_nil, or_false] at hname ⊢
      rcases hname with rfl | rfl | rfl
      · exact .inr (.inr (.inr (.inl rfl)))
      · exact .inr (.inr (.inr (.inr (.inl rfl))))
      · exact .inr (.inr (.inr (.inr (.inr (.inl rfl)))))
  intro f hf
  rcases List.mem_append.mp hf with hf | hf
  · rcases List.mem_append.mp hf with hf | hf
    · rcases List.mem_append.mp hf with hf | hf
      · simp only [List.mem_cons, List.not_mem_nil, or_false] at hf
        rcases hf with rfl | rfl | rfl
        · exact hother _ (by decide) _
        · exact hother _ (by decide) _
        · exact hother _ (by decide) _
      · rcases List.mem_append.mp hf with hf | hf
        · rcases List.mem_append.mp hf with hf | hf
          · split at hf
            · obtain rfl := List.mem_singleton.mp hf
              exact hother _ (by decide) _
            · exact haddresses _ (by decide) _ f hf
          · exact haddresses _ (by decide) _ f hf
        · split at hf
          · exact absurd hf List.not_mem_nil
          · exact haddresses _ (by decide) _ f hf
    · rcases List.mem_append.mp hf with hf | hf
      · obtain ⟨parent, -, rfl⟩ := List.mem_map.mp hf
        exact hother _ (by decide) _
      · split at hf
        · exact absurd hf List.not_mem_nil
        · obtain rfl := List.mem_singleton.mp hf
          exact hother _ (by decide) _
  · simp only [List.mem_cons, List.not_mem_nil, or_false] at hf
    rcases hf with rfl | rfl
    · exact hother _ (by decide) _
    · exact hother _ (by decide) _

theorem read_written {text : String} (h : Written text draft assembly message)
    (hmethod : ∀ calendar ∈ draft.content.calendar, OneLine calendar.method.asStr) :
    Multipart.read message = some (draftLeaves draft.content) ↔ ReadsBack draft.messageId draft.content := by
  -- The fields before the body take up more lines than a message is deep.
  have hdepth : ∃ n, ((envelopeFields text draft assembly ++
      (contentEntity draft.messageId draft.content).fields).map Field.line ++
        [] :: (contentEntity draft.messageId draft.content).body).length = n + (1 + 1 + 1) + 1 := by
    have hlong : 4 ≤ ((envelopeFields text draft assembly ++
        (contentEntity draft.messageId draft.content).fields).map Field.line ++
          [] :: (contentEntity draft.messageId draft.content).body).length := by
      simp only [List.length_append, List.length_map, List.length_cons, List.length_nil, envelopeFields]
      omega
    obtain ⟨n, hn⟩ := Nat.exists_eq_add_of_le hlong
    exact ⟨n, by omega⟩
  obtain ⟨n, hn⟩ := hdepth
  obtain ⟨hproper, hiff⟩ := @leaves_content draft.messageId draft.content h.accepted hmethod n
  have hvalid : ∀ f ∈ envelopeFields text draft assembly ++ (contentEntity draft.messageId draft.content).fields,
      f.Valid := List.forall_mem_append.mpr ⟨h.envelope, hproper.whole.fields⟩
  have hlines := (Whole.mk hvalid hproper.whole.body : Whole ⟨_, _⟩).linesOf
  rw [linesOf] at hlines
  rw [← hiff, Multipart.read, h.lines, Crlf.lines?_join hlines, Option.bind_some, hn,
    entity_envelope hproper h.envelope isContent_envelope]

/-- The parts of a draft are read back out of its message exactly where the method of its calendar object breaks no
line, that object ends with a line break, and no line of a text begins like a delimiter around it. -/
theorem assembled_reads_back_iff (hdate : ∀ d text, formatDate d = .ok text → OneLine text)
    (h : assembled formatDate draft date assembly = .ok message) :
    Multipart.read message = some (draftLeaves draft.content) ↔ ReadsBack draft.messageId draft.content := by
  obtain ⟨text, -, hwritten⟩ := assembled_written hdate h
  by_cases hmethod : ∀ calendar ∈ draft.content.calendar, OneLine calendar.method.asStr
  · exact read_written hwritten hmethod
  · constructor
    · intro hread
      refine absurd (fun calendar hcalendar => ?_) hmethod
      have hleaf : calendarLeaf calendar ∈ draftLeaves draft.content :=
        List.mem_append_left _ (List.mem_append_left _ (List.mem_cons_of_mem _ (List.mem_append_right _
          (List.mem_map.mpr ⟨calendar, Option.mem_toList.mpr hcalendar, rfl⟩))))
      have hvalue := isLine_encoded_iff.mp (isLine_of_read hread hleaf _ List.mem_cons_self)
      simp only [toString, oneLine_append] at hvalue
      exact oneLine_toAsciiUppercase.mp hvalue.2.2
    · intro hback
      exact absurd hback.method hmethod

end Message

def htmlDraft (text : String) : Draft Content where
  messageId := "rich@host"
  sender := ⟨none, "alice@test.local"⟩
  addressees := [⟨none, "bob@test.local"⟩]
  cc := []
  bcc := []
  subject := "Rich"
  content := { textBody := text, htmlBody := some "<p>Hello</p>", attachments := [], calendar := none }
  inReplyTo := none
  references := []
  sentCopyKeywords := []

theorem html_reads_back : ∃ message, assembled exampleDate (htmlDraft "Hello") () .wire = .ok message ∧
    Multipart.read message = some (draftLeaves (htmlDraft "Hello").content) := by
  obtain ⟨message, h⟩ : ∃ message, assembled exampleDate (htmlDraft "Hello") () .wire = .ok message := ⟨_, rfl⟩
  have hapart : AllApart (boundary "rich@host" "alternative") (htmlDraft "Hello").content := by
    intro text htext
    unfold Apart
    revert text
    decide
  have hnone : (htmlDraft "Hello").content.inline = [] ∧ (htmlDraft "Hello").content.regular = [] := ⟨rfl, rfl⟩
  have hback : ReadsBack "rich@host" (htmlDraft "Hello").content :=
    ⟨fun _ hc => (nomatch hc), fun _ hc => (nomatch hc), fun _ => hapart, fun hne => absurd hnone.1 hne,
      fun hne => absurd hnone.2 hne⟩
  exact ⟨message, h, (assembled_reads_back_iff oneLine_exampleDate h).mpr hback⟩

theorem quoted_delimiter_splits : ∃ message,
    assembled exampleDate (htmlDraft "> wrote:\n--=_pim_engine_alternative_rich_host\n") () .wire = .ok message ∧
      Multipart.read message ≠
        some (draftLeaves (htmlDraft "> wrote:\n--=_pim_engine_alternative_rich_host\n").content) := by
  obtain ⟨message, h⟩ : ∃ message,
      assembled exampleDate (htmlDraft "> wrote:\n--=_pim_engine_alternative_rich_host\n") () .wire = .ok message :=
    ⟨_, rfl⟩
  obtain ⟨text, -, hwritten⟩ := assembled_written oneLine_exampleDate h
  refine ⟨message, h, fun hread => ?_⟩
  have hback := (read_written hwritten fun _ hc => (nomatch hc)).mp hread
  have hapart := hback.alternative (fun hnone => nomatch hnone.1) _ List.mem_cons_self
  have hline : "--=_pim_engine_alternative_rich_host".toList ∈
      normalizeBodyLines "> wrote:\n--=_pim_engine_alternative_rich_host\n".toList := by decide
  exact absurd (hapart _ hline) (by decide)

end Rfc5322
end SyncEngine
