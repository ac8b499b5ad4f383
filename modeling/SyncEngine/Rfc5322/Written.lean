import SyncEngine.Library.Multipart
import SyncEngine.Rfc5322.Assemble

/-!
# The lines of a message body

Every part of a message is written as whole lines: one for each of its header fields, an empty one, and those of
its body.  The entities here are what a part is to be; a header field of theirs stands on one line exactly where
nothing that went into it holds a line break.
-/

namespace SyncEngine
namespace Rfc5322

open Utf8

open Crlf

open Smtp Base64

open Utf8 (encoded encoded_append toUTF8_toList)
open Crlf (Field IsLine join)
open Fallible (bind_eq_ok mapM_ok_forall₂)
open Multipart (Entity)

/-! ## Texts of one line -/

/-- A text that can stand in a header. -/
def OneLine (text : String) : Prop := '\r' ∉ text.toList ∧ '\n' ∉ text.toList

instance (text : String) : Decidable (OneLine text) := inferInstanceAs (Decidable (_ ∧ _))

@[simp] theorem oneLine_append {s t : String} : OneLine (s ++ t) ↔ OneLine s ∧ OneLine t := by
  simp only [OneLine, String.toList_append, List.mem_append, not_or]
  constructor
  · rintro ⟨⟨a, b⟩, c, d⟩
    exact ⟨⟨a, c⟩, b, d⟩
  · rintro ⟨⟨a, c⟩, b, d⟩
    exact ⟨⟨a, b⟩, c, d⟩

theorem oneLine_ofList {cs : List Char} (h : ∀ c ∈ cs, c ≠ '\r' ∧ c ≠ '\n') : OneLine (String.ofList cs) := by
  rw [OneLine, String.toList_ofList]
  exact ⟨fun hm => (h _ hm).1 rfl, fun hm => (h _ hm).2 rfl⟩

variable {text : String}

theorem isLine_encoded_iff : IsLine (encoded text) ↔ OneLine text := by
  have hcr : (13 : UInt8) = ascii '\r' := by decide
  have hlf : (10 : UInt8) = ascii '\n' := by decide
  rw [IsLine, hcr, hlf, encoded, ascii_mem_bytes_iff (by decide), ascii_mem_bytes_iff (by decide)]
  rfl

theorem oneLine_of_hasControl (h : hasControl text = false) : OneLine text := by
  rw [hasControl, List.any_eq_false] at h
  constructor
  · intro hm
    exact h _ hm (by decide)
  · intro hm
    exact h _ hm (by decide)

variable {value : String}

theorem rejectControl_eq_ok {field : String} (h : rejectControl field value = .ok text) :
    hasControl value = false ∧ text = value := by
  unfold rejectControl at h
  by_cases hc : hasControl value = true
  · rw [if_pos hc] at h
    exact nomatch h
  · rw [if_neg hc] at h
    exact ⟨Bool.eq_false_iff.mpr hc, (Except.ok.inj h).symm⟩

theorem letter_plain : ∀ c ∈ '=' :: alphabet, c.toNat < 128 ∧ c ≠ '\r' ∧ c ≠ '\n' ∧ c ≠ '-' := by decide

theorem oneLine_encodedWord (text : String) : OneLine (encodedWord text) := by
  have hword : OneLine (String.ofList (encode text.toUTF8.toList)) := by
    apply oneLine_ofList
    intro c hc
    have hletter := letter_plain c (encode_letters hc)
    exact ⟨hletter.2.1, hletter.2.2.1⟩
  have hopen : OneLine "=?UTF-8?B?" := by decide
  have hclose : OneLine "?=" := by decide
  simp only [encodedWord, toString, oneLine_append]
  exact ⟨⟨hopen, hword⟩, hclose⟩

theorem oneLine_escaped (h : OneLine text) : OneLine (String.ofList (text.toList.flatMap escapeQuoted)) := by
  apply oneLine_ofList
  intro c hc
  obtain ⟨d, hd, hc⟩ := List.mem_flatMap.mp hc
  have hne : d ≠ '\r' ∧ d ≠ '\n' := ⟨fun e => h.1 (e ▸ hd), fun e => h.2 (e ▸ hd)⟩
  unfold escapeQuoted at hc
  split at hc
  · rcases List.mem_cons.mp hc with rfl | hc
    · decide
    · rw [List.mem_singleton.mp hc]
      exact hne
  · rw [List.mem_singleton.mp hc]
    exact hne

/-! ## The lines of a part -/

def field (name value : String) : Field := ⟨encoded name, encoded (" " ++ value)⟩

/-- The lines a part stands on: those of the header fields of an entity, and those of its body. -/
structure Part.Written (part : Part) (entity : Entity) : Prop where
  fields : encoded part.contentHeaders = join (entity.fields.map Field.line)
  body : part.body = join entity.body

theorem encoded_field (name value rest : String) :
    encoded (name ++ ": " ++ value ++ "\r\n" ++ rest) = join [(field name value).line] ++ encoded rest := by
  have hcolon : encoded ": " = [58, 32] := by decide
  have hspace : encoded " " = [32] := by decide
  have hend : encoded "\r\n" = [13, 10] := by decide
  simp only [encoded_append, hcolon, hspace, hend, Field.line, field, join_cons, join_nil,
    List.append_assoc, List.cons_append, List.nil_append]

theorem encoded_last_field (name value : String) :
    encoded (name ++ ": " ++ value ++ "\r\n") = join [(field name value).line] := by
  have h := encoded_field name value ""
  have hnil : encoded "" = [] := by decide
  rwa [String.append_empty, hnil, List.append_nil] at h

/-- The names of header fields are of this kind. -/
structure IsName (name : String) : Prop where
  line : OneLine name
  colon : 58 ∉ encoded name
  nonempty : encoded name ≠ []
  start : continues (encoded name) = false

instance (name : String) : Decidable (IsName name) :=
  decidable_of_iff (OneLine name ∧ 58 ∉ encoded name ∧ encoded name ≠ [] ∧ continues (encoded name) = false)
    ⟨fun ⟨a, b, c, d⟩ => ⟨a, b, c, d⟩, fun ⟨a, b, c, d⟩ => ⟨a, b, c, d⟩⟩

variable {name : String}

theorem field_valid (hname : IsName name) (hvalue : OneLine value) : (field name value).Valid := by
  have hspace : OneLine " " := by decide
  refine ⟨isLine_encoded_iff.mpr hname.line, isLine_encoded_iff.mpr (oneLine_append.mpr ⟨hspace, hvalue⟩),
    hname.colon, ?_⟩
  show continues (encoded name ++ _) = false
  have hstart := hname.start
  have hne := hname.nonempty
  cases hbytes : encoded name with
  | nil => exact absurd hbytes hne
  | cons b bs =>
    rw [hbytes] at hstart
    exact hstart

theorem join_encodedLines (lines : List (List Char)) :
    (lines.flatMap fun line => bytes line ++ [13, 10]) = join (lines.map bytes) := by
  rw [join, List.flatMap_map]

theorem isLine_of_mem_normalizeBodyLines {text : List Char} {line : List Char} (h : line ∈ normalizeBodyLines text) :
    IsLine (bytes line) := by
  have hfree : '\r' ∉ line ∧ '\n' ∉ line := by
    induction text using normalizeBodyLines.induct generalizing line with
    | case1 =>
      obtain rfl := List.mem_singleton.mp h
      exact ⟨List.not_mem_nil, List.not_mem_nil⟩
    | case2 rest ih =>
      rw [normalizeBodyLines] at h
      rcases List.mem_cons.mp h with rfl | h
      · exact ⟨List.not_mem_nil, List.not_mem_nil⟩
      · exact ih h
    | case3 c rest hpair hc ih =>
      rw [normalizeBodyLines, if_pos hc] at h
      · rcases List.mem_cons.mp h with rfl | h
        · exact ⟨List.not_mem_nil, List.not_mem_nil⟩
        · exact ih h
      · exact hpair
    | case4 c rest hpair hc hnil ih =>
      rw [normalizeBodyLines, if_neg hc, hnil] at h
      · obtain rfl := List.mem_singleton.mp h
        rw [not_or] at hc
        exact ⟨fun hm => hc.1 (List.mem_singleton.mp hm).symm, fun hm => hc.2 (List.mem_singleton.mp hm).symm⟩
      · exact hpair
    | case5 c rest hpair hc first others hrest ih =>
      rw [normalizeBodyLines, if_neg hc, hrest] at h
      · rw [not_or] at hc
        rcases List.mem_cons.mp h with rfl | h
        · have hfirst := ih (hrest ▸ List.mem_cons_self : first ∈ normalizeBodyLines rest)
          refine ⟨fun hm => ?_, fun hm => ?_⟩
          · rcases List.mem_cons.mp hm with e | hm
            · exact hc.1 e.symm
            · exact hfirst.1 hm
          · rcases List.mem_cons.mp hm with e | hm
            · exact hc.2 e.symm
            · exact hfirst.2 hm
        · exact ih (hrest ▸ List.mem_cons_of_mem first h : line ∈ normalizeBodyLines rest)
      · exact hpair
  have h := (@isLine_encoded_iff (String.ofList line)).mpr (by rwa [OneLine, String.toList_ofList])
  rwa [encoded, String.toList_ofList] at h

def base64Lines (content : List UInt8) : List (List UInt8) := chunks 76 (bytes (encode content))

theorem base64Body_eq (content : List UInt8) : base64Body content = join (base64Lines content) := rfl

theorem bytes_encode (content : List UInt8) : bytes (encode content) = (encode content).map ascii :=
  bytes_eq_map fun c hc => (letter_plain c (encode_letters hc)).1

theorem base64Lines_letters {content : List UInt8} {line : List UInt8} (h : line ∈ base64Lines content) :
    IsLine line ∧ 45 ∉ line := by
  have hbyte : ∀ b ∈ line, b ≠ 13 ∧ b ≠ 10 ∧ b ≠ 45 := by
    intro b hb
    have hmem := (sublist_of_mem_chunks (by decide) h).subset hb
    rw [bytes_encode] at hmem
    obtain ⟨c, hc, rfl⟩ := List.mem_map.mp hmem
    have htable : ∀ c ∈ '=' :: alphabet, ascii c ≠ 13 ∧ ascii c ≠ 10 ∧ ascii c ≠ 45 := by decide
    exact htable c (encode_letters hc)
  exact ⟨⟨fun hm => (hbyte _ hm).1 rfl, fun hm => (hbyte _ hm).2.1 rfl⟩, fun hm => (hbyte _ hm).2.2 rfl⟩

def textFields (subtype : String) : List Field := [field "Content-Type" s!"text/{subtype}; charset=utf-8"]

def calendarFields (calendar : DraftCalendar) : List Field :=
  let method := toAsciiUppercase calendar.method.asStr
  [field "Content-Type" s!"text/calendar; charset=utf-8; method={method}", field "Content-Transfer-Encoding" "base64"]

def parameterText (name value : String) : String :=
  if isAsciiPrintable value then
    let escaped := String.ofList (value.toList.flatMap escapeQuoted)
    s!"{name}=\"{escaped}\""
  else
    let encoded := percentEncode value.toUTF8.toList
    s!"{name}*=utf-8''{encoded}"

def dispositionFields (fileName : String) : Disposition → List Field
  | .inline contentId =>
    let id := contentId.text
    let filename := parameterText "filename" fileName
    [field "Content-ID" s!"<{id}>", field "Content-Disposition" s!"inline; {filename}"]
  | .attachment =>
    let filename := parameterText "filename" fileName
    [field "Content-Disposition" s!"attachment; {filename}"]

def attachmentFields (attachment : DraftAttachment) : List Field :=
  let mediaType := attachment.mediaType
  let name := parameterText "name" attachment.fileName
  field "Content-Type" s!"{mediaType}; {name}" :: field "Content-Transfer-Encoding" "base64" ::
    dispositionFields attachment.fileName attachment.disposition

def multipartFields (subtype boundary : String) : List Field :=
  [field "Content-Type" s!"multipart/{subtype}; boundary=\"{boundary}\""]

def textEntity (kind body : String) : Entity where
  fields := textFields kind
  body := (normalizeBodyLines body.toList).map bytes

def calendarEntity (calendar : DraftCalendar) : Entity where
  fields := calendarFields calendar
  body := base64Lines (join ((calendarLines calendar.ical).map bytes))

def attachmentEntity (attachment : DraftAttachment) : Entity where
  fields := attachmentFields attachment
  body := base64Lines attachment.content

/-- A line that stands before each part of a multipart, and the line after the last one. -/
def delimiter (boundary : String) : List UInt8 := 45 :: 45 :: encoded boundary

def closing (boundary : String) : List UInt8 := 45 :: 45 :: encoded boundary ++ [45, 45]

def linesOf (entity : Entity) : List (List UInt8) := entity.fields.map Field.line ++ [] :: entity.body

def multipartEntity (subtype boundary : String) (entities : List Entity) : Entity where
  fields := multipartFields subtype boundary
  body := (entities.flatMap fun entity => delimiter boundary :: linesOf entity) ++ [closing boundary]

variable {kind body : String}

theorem textPart_written (hkind : kind = "html" ∨ kind = "plain") :
    (textPart kind body).Written (textEntity kind body) := by
  have hsubtype : (if kind = "html" then "html" else "plain") = kind := by
    rcases hkind with rfl | rfl <;> rfl
  constructor
  · have htext : (textPart kind body).contentHeaders =
        "Content-Type" ++ ": " ++ s!"text/{kind}; charset=utf-8" ++ "\r\n" := by
      have hname : "Content-Type: text/" = "Content-Type" ++ (": " ++ "text/") := rfl
      have hlast : "; charset=utf-8\r\n" = "; charset=utf-8" ++ "\r\n" := rfl
      unfold textPart
      dsimp only
      rw [hsubtype]
      simp only [toString, hname, hlast, String.append_assoc]
    rw [htext, encoded_last_field, textEntity, textFields, List.map_cons, List.map_nil]
  · exact join_encodedLines _

theorem calendarPart_written (calendar : DraftCalendar) : (calendarPart calendar).Written (calendarEntity calendar) := by
  constructor
  · have htext : ∀ method : String,
        s!"Content-Type: text/calendar; charset=utf-8; method={method}\r\nContent-Transfer-Encoding: base64\r\n" =
          "Content-Type" ++ ": " ++ s!"text/calendar; charset=utf-8; method={method}" ++ "\r\n" ++
            ("Content-Transfer-Encoding" ++ ": " ++ "base64" ++ "\r\n") := by
      have hname : "Content-Type: text/calendar; charset=utf-8; method=" =
          "Content-Type" ++ (": " ++ "text/calendar; charset=utf-8; method=") := rfl
      have hlast : "\r\nContent-Transfer-Encoding: base64\r\n" =
          "\r\n" ++ ("Content-Transfer-Encoding" ++ (": " ++ ("base64" ++ "\r\n"))) := rfl
      intro method
      simp only [toString, hname, hlast, String.append_assoc]
    unfold calendarPart
    dsimp only
    rw [htext, encoded_field, encoded_last_field, ← join_append, calendarEntity, calendarFields]
    rfl
  · unfold calendarPart
    dsimp only
    rw [join_encodedLines, base64Body_eq, calendarEntity]

theorem parameter_eq_ok (h : parameter name value = .ok text) :
    hasControl value = false ∧ text = parameterText name value := by
  obtain ⟨v, hv, hrest⟩ := bind_eq_ok.mp h
  obtain ⟨hcontrol, rfl⟩ := rejectControl_eq_ok hv
  refine ⟨hcontrol, ?_⟩
  rw [parameterText]
  by_cases hp : isAsciiPrintable v = true
  · rw [if_pos hp] at hrest ⊢
    exact (Except.ok.inj hrest).symm
  · rw [if_neg hp] at hrest ⊢
    exact (Except.ok.inj hrest).symm

theorem mediaType_eq_ok (h : mediaType value = .ok text) :
    text = value ∧ hasControl value = false ∧ ∀ c ∈ value.toList, isMediaTypeChar c = true := by
  obtain ⟨v, hv, hrest⟩ := bind_eq_ok.mp h
  obtain ⟨hcontrol, rfl⟩ := rejectControl_eq_ok hv
  by_cases hbad : v = "" ∨ ¬v.toList.all isMediaTypeChar
  · rw [if_pos hbad] at hrest
    exact nomatch hrest
  · rw [if_neg hbad] at hrest
    rw [not_or, not_not] at hbad
    exact ⟨(Except.ok.inj hrest).symm, hcontrol, List.all_eq_true.mp hbad.2⟩

/-- What an attachment is accepted with. -/
structure DraftAttachment.Accepted (attachment : DraftAttachment) : Prop where
  media : ∀ c ∈ attachment.mediaType.toList, isMediaTypeChar c = true
  mediaLine : hasControl attachment.mediaType = false
  fileName : hasControl attachment.fileName = false

theorem encoded_attachment (mediaType name rest : String) :
    encoded (s!"Content-Type: {mediaType}; {name}\r\nContent-Transfer-Encoding: base64\r\n" ++ rest) =
      join [(field "Content-Type" s!"{mediaType}; {name}").line, (field "Content-Transfer-Encoding" "base64").line] ++
        encoded rest := by
  have htext : s!"Content-Type: {mediaType}; {name}\r\nContent-Transfer-Encoding: base64\r\n" ++ rest =
      "Content-Type" ++ ": " ++ s!"{mediaType}; {name}" ++ "\r\n" ++
        ("Content-Transfer-Encoding" ++ ": " ++ "base64" ++ "\r\n" ++ rest) := by
    have hname : "Content-Type: " = "Content-Type" ++ ": " := rfl
    have hlast : "\r\nContent-Transfer-Encoding: base64\r\n" =
        "\r\n" ++ ("Content-Transfer-Encoding" ++ (": " ++ ("base64" ++ "\r\n"))) := rfl
    simp only [toString, hname, hlast, String.append_assoc]
  rw [htext, encoded_field, encoded_field, ← List.append_assoc, ← join_append]
  rfl

theorem encoded_inline (id filename : String) :
    encoded s!"Content-ID: <{id}>\r\nContent-Disposition: inline; {filename}\r\n" =
      join [(field "Content-ID" s!"<{id}>").line, (field "Content-Disposition" s!"inline; {filename}").line] := by
  have htext : s!"Content-ID: <{id}>\r\nContent-Disposition: inline; {filename}\r\n" =
      "Content-ID" ++ ": " ++ s!"<{id}>" ++ "\r\n" ++
        ("Content-Disposition" ++ ": " ++ s!"inline; {filename}" ++ "\r\n") := by
    have hname : "Content-ID: <" = "Content-ID" ++ (": " ++ "<") := rfl
    have hnext : ">\r\nContent-Disposition: inline; " =
        ">" ++ ("\r\n" ++ ("Content-Disposition" ++ (": " ++ "inline; "))) := rfl
    simp only [toString, hname, hnext, String.append_assoc]
  rw [htext, encoded_field, encoded_last_field, ← join_append]
  rfl

theorem encoded_regular (filename : String) : encoded s!"Content-Disposition: attachment; {filename}\r\n" =
      join [(field "Content-Disposition" s!"attachment; {filename}").line] := by
  have htext : s!"Content-Disposition: attachment; {filename}\r\n" =
      "Content-Disposition" ++ ": " ++ s!"attachment; {filename}" ++ "\r\n" := by
    have hname : "Content-Disposition: attachment; " = "Content-Disposition" ++ (": " ++ "attachment; ") := rfl
    simp only [toString, hname, String.append_assoc]
  rw [htext, encoded_last_field]

variable {attachment : DraftAttachment} {part : Part}

theorem attachmentPart_written (h : attachmentPart attachment = .ok part) :
    attachment.Accepted ∧ part.Written (attachmentEntity attachment) := by
  obtain ⟨mediaType, hmedia, hrest⟩ := bind_eq_ok.mp h
  obtain ⟨name, hname, hrest⟩ := bind_eq_ok.mp hrest
  obtain ⟨filename, hfilename, hrest⟩ := bind_eq_ok.mp hrest
  obtain ⟨rfl, hcontrol, hchars⟩ := mediaType_eq_ok hmedia
  obtain ⟨hfile, rfl⟩ := parameter_eq_ok hname
  obtain ⟨-, rfl⟩ := parameter_eq_ok hfilename
  refine ⟨⟨hchars, hcontrol, hfile⟩, ?_⟩
  cases hd : attachment.disposition with
  | inline contentId =>
    rw [hd] at hrest
    obtain ⟨id, hid, hrest⟩ := bind_eq_ok.mp hrest
    obtain ⟨-, rfl⟩ := rejectControl_eq_ok hid
    obtain rfl := Except.ok.inj hrest
    refine ⟨?_, base64Body_eq _⟩
    rw [encoded_attachment, encoded_inline, ← join_append, attachmentEntity, attachmentFields, hd]
    rfl
  | attachment =>
    rw [hd] at hrest
    obtain rfl := Except.ok.inj hrest
    refine ⟨?_, base64Body_eq _⟩
    rw [encoded_attachment, encoded_regular, ← join_append, attachmentEntity, attachmentFields, hd]
    rfl

theorem multipart_headers (subtype boundary : String) (parts : List Part) :
    encoded (multipart subtype boundary parts).contentHeaders = join ((multipartFields subtype boundary).map Field.line) := by
  have htext : (multipart subtype boundary parts).contentHeaders =
      "Content-Type" ++ ": " ++ s!"multipart/{subtype}; boundary=\"{boundary}\"" ++ "\r\n" := by
    have hname : "Content-Type: multipart/" = "Content-Type" ++ (": " ++ "multipart/") := rfl
    have hlast : "\"\r\n" = "\"" ++ "\r\n" := rfl
    unfold multipart
    dsimp only
    simp only [toString, hname, hlast, String.append_assoc]
  rw [htext, encoded_last_field, multipartFields, List.map_cons, List.map_nil]

variable {subtype : String} {entities : List Entity}

theorem multipart_written {boundary : String} {parts : List Part} (h : List.Forall₂ Part.Written parts entities) :
    (multipart subtype boundary parts).Written (multipartEntity subtype boundary entities) where
  fields := multipart_headers subtype boundary parts
  body := by
    have hdashes : encoded "--" = [45, 45] := by decide
    have hend : encoded "\r\n" = [13, 10] := by decide
    have hlast : encoded "--\r\n" = [45, 45, 13, 10] := by decide
    have hopen : s!"--{boundary}\r\n".toUTF8.toList = join [delimiter boundary] := by
      have htext : s!"--{boundary}\r\n" = "--" ++ boundary ++ "\r\n" := rfl
      rw [toUTF8_toList, htext, encoded_append, encoded_append, hdashes, hend, join_cons, join_nil]
      rfl
    have hclose : s!"--{boundary}--\r\n".toUTF8.toList = join [closing boundary] := by
      have htext : s!"--{boundary}--\r\n" = "--" ++ boundary ++ "--\r\n" := rfl
      rw [toUTF8_toList, htext, encoded_append, encoded_append, hdashes, hlast, join_cons, join_nil, closing]
      simp only [List.append_assoc, List.cons_append, List.nil_append]
    have hparts : (parts.flatMap fun part =>
          s!"--{boundary}\r\n".toUTF8.toList ++ part.contentHeaders.toUTF8.toList ++ [13, 10] ++ part.body) =
        join (entities.flatMap fun entity => delimiter boundary :: linesOf entity) := by
      induction h with
      | nil => rfl
      | cons hpart _ ih =>
        rw [List.flatMap_cons, List.flatMap_cons, ih, hopen, toUTF8_toList, hpart.fields, hpart.body, join_append]
        simp only [linesOf, join_cons, join_append, join_nil, List.cons_append, List.append_assoc, List.nil_append]
    show _ ++ _ = _
    rw [hparts, hclose, ← join_append]
    rfl

def bodyEntity (messageId : String) (content : Content) : Entity :=
  let text := textEntity "plain" content.textBody
  let html := content.htmlBody.toList.map (textEntity "html")
  let calendar := content.calendar.toList.map calendarEntity
  if html = [] ∧ calendar = [] then text
  else multipartEntity "alternative" (boundary messageId "alternative") (text :: html ++ calendar)

def encloseEntity (messageId kind : String) (body : Entity) (attachments : List DraftAttachment) : Entity :=
  if attachments = [] then body
  else multipartEntity kind (boundary messageId kind) (body :: attachments.map attachmentEntity)

def contentEntity (messageId : String) (content : Content) : Entity :=
  encloseEntity messageId "mixed"
    (encloseEntity messageId "related" (bodyEntity messageId content) content.inline) content.regular

theorem bodyPart_written (messageId : String) (content : Content) :
    (bodyPart messageId content).Written (bodyEntity messageId content) := by
  have htext : (textPart "plain" content.textBody).Written (textEntity "plain" content.textBody) :=
    textPart_written (.inr rfl)
  have hhtml : List.Forall₂ Part.Written (content.htmlBody.toList.map (textPart "html"))
      (content.htmlBody.toList.map (textEntity "html")) := by
    cases content.htmlBody with
    | none => exact .nil
    | some html => exact .cons (textPart_written (.inl rfl)) .nil
  have hcalendar : List.Forall₂ Part.Written (content.calendar.toList.map calendarPart)
      (content.calendar.toList.map calendarEntity) := by
    cases content.calendar with
    | none => exact .nil
    | some calendar => exact .cons (calendarPart_written calendar) .nil
  unfold bodyPart bodyEntity
  dsimp only
  simp only [List.map_eq_nil_iff]
  split
  · exact htext
  · exact multipart_written (.cons htext (List.rel_append hhtml hcalendar))

variable {messageId : String} {attachments : List DraftAttachment}

theorem enclose_written {body : Part} {entity : Entity} (hbody : body.Written entity)
    (h : enclose messageId kind body attachments = .ok part) :
    (∀ a ∈ attachments, a.Accepted) ∧ part.Written (encloseEntity messageId kind entity attachments) := by
  unfold enclose at h
  unfold encloseEntity
  split at h
  · rename_i hnil
    obtain rfl := Except.ok.inj h
    rw [if_pos hnil, hnil]
    exact ⟨by simp, hbody⟩
  · rename_i hnil
    obtain ⟨parts, hparts, hrest⟩ := bind_eq_ok.mp h
    obtain rfl := Except.ok.inj hrest
    rw [if_neg hnil]
    have hall : (∀ a ∈ attachments, a.Accepted) ∧ List.Forall₂ Part.Written parts (attachments.map attachmentEntity) := by
      have hmap := mapM_ok_forall₂ hparts
      clear hparts h hnil hrest
      induction hmap with
      | nil => exact ⟨by simp, .nil⟩
      | cons hfirst _ ih =>
        obtain ⟨haccepted, hwritten⟩ := attachmentPart_written hfirst
        exact ⟨List.forall_mem_cons.mpr ⟨haccepted, ih.1⟩, .cons hwritten ih.2⟩
    obtain ⟨haccepted, hwritten⟩ := hall
    exact ⟨haccepted, multipart_written (.cons hbody hwritten)⟩

variable {content : Content}

theorem mimeBody_written {body : MimeBody} (h : mimeBody messageId content = .ok body) :
    (∀ a ∈ content.attachments, a.Accepted) ∧
      (Part.mk body.contentHeaders body.body).Written (contentEntity messageId content) := by
  obtain ⟨related, hrelated, hrest⟩ := bind_eq_ok.mp h
  obtain ⟨mixed, hmixed, hrest⟩ := bind_eq_ok.mp hrest
  obtain rfl := Except.ok.inj hrest
  obtain ⟨hinline, hwritten⟩ := enclose_written (bodyPart_written messageId content) hrelated
  obtain ⟨hregular, hwritten⟩ := enclose_written hwritten hmixed
  refine ⟨fun a ha => ?_, hwritten⟩
  cases hi : a.isInline with
  | true => exact hinline a (List.mem_filter.mpr ⟨ha, hi⟩)
  | false => exact hregular a (List.mem_filter.mpr ⟨ha, by rw [hi]; rfl⟩)

/-! ## The fields of a part -/

theorem oneLine_toAsciiUppercase : OneLine (toAsciiUppercase text) ↔ OneLine text := by
  have hupper : ∀ c d : Char, d = '\r' ∨ d = '\n' → (c.toUpper = d ↔ c = d) := by
    intro c d hd
    by_cases hletter : 97 ≤ c.toNat ∧ c.toNat ≤ 122
    · have htable : ∀ n < 123, 97 ≤ n → (Char.ofNat n).toUpper ∉ ['\r', '\n'] ∧ Char.ofNat n ∉ ['\r', '\n'] := by
        decide
      have hother := htable c.toNat (by omega) hletter.1
      rw [Char.ofNat_toNat] at hother
      have hmem : d ∈ ['\r', '\n'] := by simpa using hd
      exact ⟨fun h => absurd (h ▸ hmem) hother.1, fun h => absurd (h ▸ hmem) hother.2⟩
    · have hsame : c.toUpper = c := by
        unfold Char.toUpper
        rw [dif_neg]
        exact fun h => hletter ⟨h.1, h.2⟩
      rw [hsame]
  have hmem : ∀ d : Char, d = '\r' ∨ d = '\n' → (d ∈ text.toList.map Char.toUpper ↔ d ∈ text.toList) := by
    intro d hd
    rw [List.mem_map]
    constructor
    · rintro ⟨c, hc, he⟩
      rwa [← (hupper c d hd).mp he]
    · intro h
      exact ⟨d, h, (hupper d d hd).mpr rfl⟩
  rw [OneLine, OneLine, toAsciiUppercase, String.toList_ofList, hmem _ (.inl rfl), hmem _ (.inr rfl)]

theorem percentByte_letters (byte : UInt8) : ∀ c ∈ percentByte byte, c ≠ '\r' ∧ c ≠ '\n' ∧ c ≠ ';' ∧ c ≠ '"' := by
  have htable : ∀ n < 256, ∀ c ∈ percentByte (UInt8.ofNat n), c ≠ '\r' ∧ c ≠ '\n' ∧ c ≠ ';' ∧ c ≠ '"' := by
    decide +kernel
  have h := htable byte.toNat (UInt8.toNat_lt byte)
  rwa [UInt8.ofNat_toNat] at h

theorem oneLine_parameterText (hname : OneLine name) (h : hasControl value = false) :
    OneLine (parameterText name value) := by
  have hvalue := oneLine_of_hasControl h
  have hquote : OneLine "\"" := by decide
  have hequals : OneLine "=\"" := by decide
  have hcharset : OneLine "*=utf-8''" := by decide
  unfold parameterText
  split
  · simp only [toString, oneLine_append]
    exact ⟨⟨⟨hname, hequals⟩, oneLine_escaped hvalue⟩, hquote⟩
  · have hpercent : OneLine (percentEncode value.toUTF8.toList) := by
      apply oneLine_ofList
      intro c hc
      obtain ⟨byte, -, hc⟩ := List.mem_flatMap.mp hc
      have hletter := percentByte_letters byte c hc
      exact ⟨hletter.1, hletter.2.1⟩
    simp only [toString, oneLine_append]
    exact ⟨⟨hname, hcharset⟩, hpercent⟩

theorem textFields_valid (h : OneLine subtype) : ∀ f ∈ textFields subtype, f.Valid := by
  have hopen : OneLine "text/" := by decide
  have hclose : OneLine "; charset=utf-8" := by decide
  intro f hf
  obtain rfl := List.mem_singleton.mp hf
  apply field_valid (by decide)
  simp only [toString, oneLine_append]
  exact ⟨⟨hopen, h⟩, hclose⟩

variable {calendar : DraftCalendar}

theorem calendarFields_valid (h : OneLine calendar.method.asStr) : ∀ f ∈ calendarFields calendar, f.Valid := by
  have hopen : OneLine "text/calendar; charset=utf-8; method=" := by decide
  have hvalue : OneLine ("text/calendar; charset=utf-8; method=" ++ toAsciiUppercase calendar.method.asStr) :=
    oneLine_append.mpr ⟨hopen, oneLine_toAsciiUppercase.mpr h⟩
  refine List.forall_mem_cons.mpr ⟨field_valid (by decide) hvalue, ?_⟩
  exact List.forall_mem_singleton.mpr (field_valid (by decide) (by decide))

theorem attachmentFields_valid (h : attachment.Accepted) : ∀ f ∈ attachmentFields attachment, f.Valid := by
  have hseparator : OneLine "; " := by decide
  have hname : OneLine (parameterText "name" attachment.fileName) := oneLine_parameterText (by decide) h.fileName
  have hfilename : OneLine (parameterText "filename" attachment.fileName) := oneLine_parameterText (by decide) h.fileName
  have hmedia := oneLine_of_hasControl h.mediaLine
  refine List.forall_mem_cons.mpr ⟨field_valid (by decide) ?_, List.forall_mem_cons.mpr ⟨field_valid (by decide) (by decide), ?_⟩⟩
  · simp only [toString, oneLine_append]
    exact ⟨⟨hmedia, hseparator⟩, hname⟩
  · cases hd : attachment.disposition with
    | inline contentId =>
      have hless : OneLine "<" := by decide
      have hmore : OneLine ">" := by decide
      have hopen : OneLine "inline; " := by decide
      have hid : OneLine contentId.text :=
        ⟨fun hm => contentId.allowed _ hm (by decide), fun hm => contentId.allowed _ hm (by decide)⟩
      refine List.forall_mem_cons.mpr ⟨field_valid (by decide) ?_, List.forall_mem_singleton.mpr (field_valid (by decide) ?_)⟩
      · simp only [toString, oneLine_append]
        exact ⟨⟨hless, hid⟩, hmore⟩
      · simp only [toString, oneLine_append]
        exact ⟨hopen, hfilename⟩
    | attachment =>
      have hopen : OneLine "attachment; " := by decide
      refine List.forall_mem_singleton.mpr (field_valid (by decide) ?_)
      simp only [toString, oneLine_append]
      exact ⟨hopen, hfilename⟩

theorem multipartFields_valid {boundary : String} (hs : OneLine subtype) (hb : OneLine boundary) :
    ∀ f ∈ multipartFields subtype boundary, f.Valid := by
  have hopen : OneLine "multipart/" := by decide
  have hmiddle : OneLine "; boundary=\"" := by decide
  have hclose : OneLine "\"" := by decide
  intro f hf
  obtain rfl := List.mem_singleton.mp hf
  apply field_valid (by decide)
  simp only [toString, oneLine_append]
  exact ⟨⟨⟨⟨hopen, hs⟩, hmiddle⟩, hb⟩, hclose⟩

theorem boundary_letters (hkind : ∀ c ∈ kind.toList, c.isAlphanum = true) :
    ∀ c ∈ (boundary messageId kind).toList, c.isAlphanum = true ∨ c = '_' ∨ c = '=' := by
  have hopen : ∀ c ∈ "=_pim_engine_".toList, c.isAlphanum = true ∨ c = '_' ∨ c = '=' := by decide
  have hkind' : ∀ c ∈ kind.toList, c.isAlphanum = true ∨ c = '_' ∨ c = '=' := fun c hc => .inl (hkind c hc)
  have hseed : ∀ c ∈ (messageId.toList.map fun c => if c.isAlphanum then c else '_').take 48,
      c.isAlphanum = true ∨ c = '_' ∨ c = '=' := by
    intro c hc
    obtain ⟨d, -, rfl⟩ := List.mem_map.mp (List.mem_of_mem_take hc)
    by_cases hd : d.isAlphanum = true
    · rw [if_pos hd]
      exact .inl hd
    · rw [if_neg hd]
      exact .inr (.inl rfl)
  intro c hc
  unfold boundary at hc
  dsimp only at hc
  split at hc
  · simp only [toString, String.toList_append, List.mem_append] at hc
    rcases hc with hc | hc
    · exact hopen c hc
    · exact hkind' c hc
  · simp only [toString, String.toList_append, List.mem_append, String.toList_ofList] at hc
    rcases hc with ((hc | hc) | hc) | hc
    · exact hopen c hc
    · exact hkind' c hc
    · exact .inr (.inl (List.mem_singleton.mp hc))
    · exact hseed c hc

theorem oneLine_boundary (hkind : ∀ c ∈ kind.toList, c.isAlphanum = true) : OneLine (boundary messageId kind) := by
  constructor
  · intro hm
    rcases boundary_letters hkind _ hm with h | h | h
    · exact absurd h (by decide)
    · exact absurd h (by decide)
    · exact absurd h (by decide)
  · intro hm
    rcases boundary_letters hkind _ hm with h | h | h
    · exact absurd h (by decide)
    · exact absurd h (by decide)
    · exact absurd h (by decide)

/-! ## Whole lines -/

/-- Every field of an entity stands on a line of its own, and its body is lines. -/
structure Whole (e : Entity) : Prop where
  fields : ∀ f ∈ e.fields, f.Valid
  body : ∀ l ∈ e.body, IsLine l

theorem Whole.linesOf {e : Entity} (h : Whole e) : ∀ l ∈ linesOf e, IsLine l := by
  intro l hl
  rcases List.mem_append.mp hl with hl | hl
  · exact isLine_lines h.fields l hl
  · rcases List.mem_cons.mp hl with rfl | hl
    · exact ⟨List.not_mem_nil, List.not_mem_nil⟩
    · exact h.body l hl

theorem whole_text (hkind : OneLine kind) : Whole (textEntity kind body) where
  fields := textFields_valid hkind
  body := by
    intro l hl
    obtain ⟨line, hline, rfl⟩ := List.mem_map.mp hl
    exact isLine_of_mem_normalizeBodyLines hline

theorem whole_calendar (h : OneLine calendar.method.asStr) : Whole (calendarEntity calendar) where
  fields := calendarFields_valid h
  body := fun _ hl => (base64Lines_letters hl).1

theorem whole_attachment (h : attachment.Accepted) : Whole (attachmentEntity attachment) where
  fields := attachmentFields_valid h
  body := fun _ hl => (base64Lines_letters hl).1

theorem isLine_delimiter {boundary : String} (h : OneLine boundary) :
    IsLine (delimiter boundary) ∧ IsLine (closing boundary) := by
  have hline := isLine_encoded_iff.mpr h
  have hdash : (13 : UInt8) ≠ 45 ∧ (10 : UInt8) ≠ 45 := by decide
  simp only [delimiter, closing, IsLine, List.cons_append, List.mem_cons, List.mem_append, List.not_mem_nil, hdash.1,
    hdash.2, hline.1, hline.2, or_false, not_false_eq_true, and_self]

theorem whole_multipart {boundary : String} (hs : OneLine subtype)
    (hb : OneLine boundary) (h : ∀ e ∈ entities, Whole e) : Whole (multipartEntity subtype boundary entities) where
  fields := multipartFields_valid hs hb
  body := by
    intro l hl
    rcases List.mem_append.mp hl with hl | hl
    · obtain ⟨e, he, hl⟩ := List.mem_flatMap.mp hl
      rcases List.mem_cons.mp hl with rfl | hl
      · exact (isLine_delimiter hb).1
      · exact (h e he).linesOf l hl
    · obtain rfl := List.mem_singleton.mp hl
      exact (isLine_delimiter hb).2

theorem whole_body
    (h : ∀ calendar ∈ content.calendar, OneLine calendar.method.asStr) : Whole (bodyEntity messageId content) := by
  have htext : Whole (textEntity "plain" content.textBody) := whole_text (by decide)
  unfold bodyEntity
  dsimp only
  split
  · exact htext
  · apply whole_multipart (by decide) (oneLine_boundary (by decide))
    intro e he
    rcases List.mem_cons.mp he with rfl | he
    · exact htext
    · rcases List.mem_append.mp he with he | he
      · obtain ⟨html, -, rfl⟩ := List.mem_map.mp he
        exact whole_text (by decide)
      · obtain ⟨calendar, hcalendar, rfl⟩ := List.mem_map.mp he
        exact whole_calendar (h calendar (Option.mem_toList.mp hcalendar))

theorem whole_enclose {body : Entity}
    (hkind : ∀ c ∈ kind.toList, c.isAlphanum = true) (hline : OneLine kind) (hbody : Whole body)
    (h : ∀ a ∈ attachments, a.Accepted) : Whole (encloseEntity messageId kind body attachments) := by
  unfold encloseEntity
  split
  · exact hbody
  · apply whole_multipart hline (oneLine_boundary hkind)
    intro e he
    rcases List.mem_cons.mp he with rfl | he
    · exact hbody
    · obtain ⟨a, ha, rfl⟩ := List.mem_map.mp he
      exact whole_attachment (h a ha)

theorem whole_content (h : ∀ a ∈ content.attachments, a.Accepted)
    (hmethod : ∀ calendar ∈ content.calendar, OneLine calendar.method.asStr) :
    Whole (contentEntity messageId content) := by
  have hinline : ∀ a ∈ content.inline, a.Accepted := fun a ha => h a (List.mem_filter.mp ha).1
  have hregular : ∀ a ∈ content.regular, a.Accepted := fun a ha => h a (List.mem_filter.mp ha).1
  exact whole_enclose (by decide) (by decide)
    (whole_enclose (by decide) (by decide) (whole_body hmethod) hinline) hregular

end Rfc5322
end SyncEngine
