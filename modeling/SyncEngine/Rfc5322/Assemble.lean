import SyncEngine.Library.Fallible
import SyncEngine.Outbox.Op
import SyncEngine.Smtp.Auth
import SyncEngine.Library.Lists
import SyncEngine.Library.Utf8

/-!
# Assembling a message

A draft becomes an RFC 5322 message: the header lines, an empty line, and the MIME body.  Three copies of one draft
differ in their recipient headers alone: the one on the wire names no blind-copy recipient, the one filed in Sent does,
and a stored draft does too but names nobody where there is nobody to name.  A header value is refused where it holds
a line break or a NUL.
-/

namespace SyncEngine
namespace Rfc5322

open Fallible (bind_eq_ok mapM_ok_iff)

structure EmailAddress where
  name : Option String
  email : String
deriving DecidableEq, Repr

/-- A draft to send.  `addressees` are the recipients in `To`, and `content` is what the MIME body is made of: the text, its HTML form, the
attachments and a calendar object. -/
structure Draft (κ : Type) where
  messageId : String
  sender : EmailAddress
  addressees : List EmailAddress
  cc : List EmailAddress
  bcc : List EmailAddress
  subject : String
  content : κ
  inReplyTo : Option String
  references : List String
  sentCopyKeywords : List String

structure MimeBody where
  contentHeaders : String
  body : List UInt8

/-- What assembly takes from elsewhere: the MIME body, and the instant as a header writes it. -/
structure Assembler (κ δ : Type) where
  mime : κ → Except ProviderError MimeBody
  formatDate : δ → Except String String

inductive Assembly
  | wire
  | filed
  | draft
deriving DecidableEq, Repr

/-- Whether a value holds one of the characters a header may not. -/
def hasControl (value : String) : Bool :=
  value.toList.any fun c => c = '\r' || c = '\n' || c = '\x00'

def rejectControl (field value : String) : Except ProviderError String :=
  if hasControl value then
    .error (.permanent s!"{field} contains a forbidden control character (CR, LF, or NUL)")
  else .ok value

def isAsciiPrintable (text : String) : Bool :=
  text.toList.all fun c => 0x20 ≤ c.toNat && c.toNat < 0x7f

def encodedWord (text : String) : String :=
  s!"=?UTF-8?B?{String.ofList (Base64.encode text.toUTF8.toList)}?="

def encodeHeaderText (text : String) : String :=
  if isAsciiPrintable text then text else encodedWord text

def escapeQuoted (c : Char) : List Char :=
  if c = '\\' ∨ c = '"' then ['\\', c] else [c]

def encodeHeaderPhrase (name : String) : String :=
  if isAsciiPrintable name then
    String.ofList ('"' :: name.toList.flatMap escapeQuoted ++ ['"'])
  else encodedWord name

def addressField (address : EmailAddress) : Except ProviderError String := do
  let email ← rejectControl "address" address.email
  match address.name with
  | none => return email
  | some name =>
    let name ← rejectControl "display name" name
    return s!"{encodeHeaderPhrase name} <{email}>"

def addressList (addresses : List EmailAddress) : Except ProviderError String := do
  return ", ".intercalate (← addresses.mapM addressField)

/-- A message without `To` recipients still needs the header, and names an empty group. -/
def toHeader (addressees : List EmailAddress) (assembly : Assembly) : Except ProviderError String :=
  if addressees.isEmpty then
    return if assembly = .draft then "" else "To: undisclosed-recipients:;\r\n"
  else do
    let list ← addressList addressees
    return s!"To: {list}\r\n"

def ccHeader (cc : List EmailAddress) : Except ProviderError String :=
  if cc.isEmpty then return ""
  else do
    let list ← addressList cc
    return s!"Cc: {list}\r\n"

/-- The blind-copy recipients are named in the copies that stay with the sender. -/
def bccHeader (bcc : List EmailAddress) (assembly : Assembly) : Except ProviderError String :=
  if assembly = .wire || bcc.isEmpty then return ""
  else do
    let list ← addressList bcc
    return s!"Bcc: {list}\r\n"

def inReplyToHeader : Option String → Except ProviderError String
  | none => return ""
  | some parent => do
    let parent ← rejectControl "In-Reply-To" parent
    return s!"In-Reply-To: <{parent}>\r\n"

def reference (id : String) : Except ProviderError String := do
  let id ← rejectControl "References" id
  return s!"<{id}>"

def referencesHeader (references : List String) : Except ProviderError String :=
  if references.isEmpty then return ""
  else do
    let ids := " ".intercalate (← references.mapM reference)
    return s!"References: {ids}\r\n"

variable {κ δ : Type}

def dateText (assembler : Assembler κ δ) (date : δ) : Except ProviderError String :=
  (assembler.formatDate date).mapError fun e => .permanent s!"cannot format the Date header: {e}"

def assemble (assembler : Assembler κ δ) (draft : Draft κ) (date : δ) (assembly : Assembly) :
    Except ProviderError (List UInt8) := do
  let messageId ← rejectControl "Message-ID" draft.messageId
  let sender ← addressField draft.sender
  let addressees ← toHeader draft.addressees assembly
  let cc ← ccHeader draft.cc
  let bcc ← bccHeader draft.bcc assembly
  let subject ← rejectControl "subject" draft.subject
  let inReplyTo ← inReplyToHeader draft.inReplyTo
  let references ← referencesHeader draft.references
  let date ← dateText assembler date
  let body ← assembler.mime draft.content
  let opening := s!"Date: {date}\r\nMessage-ID: <{messageId}>\r\nFrom: {sender}\r\n"
  let recipients := addressees ++ cc ++ bcc
  let rest := s!"{inReplyTo}{references}Subject: {encodeHeaderText subject}\r\nMIME-Version: 1.0\r\n"
  return (opening ++ recipients ++ rest ++ body.contentHeaders).toUTF8.toList ++ [13, 10] ++ body.body

def assembleMessage (assembler : Assembler κ δ) (draft : Draft κ) (date : δ) :
    Except ProviderError (List UInt8) :=
  assemble assembler draft date .wire

def assembleFiledMessage (assembler : Assembler κ δ) (draft : Draft κ) (date : δ) :
    Except ProviderError (List UInt8) :=
  assemble assembler draft date .filed

/-! ## What assembly refuses -/

theorem addressField_ok_iff {address : EmailAddress} : (∃ text, addressField address = .ok text) ↔
      hasControl address.email = false ∧ ∀ name ∈ address.name, hasControl name = false := by
  unfold addressField rejectControl
  by_cases he : hasControl address.email = true
  · simp [he, bind, Except.bind]
  · cases hn : address.name with
    | none => simp [he, bind, Except.bind, pure, Except.pure]
    | some name =>
      by_cases hname : hasControl name = true
      · simp [he, hname, bind, Except.bind]
      · simp [he, hname, bind, Except.bind, pure, Except.pure]

theorem addressList_ok_iff {addresses : List EmailAddress} : (∃ text, addressList addresses = .ok text) ↔
      ∀ a ∈ addresses, hasControl a.email = false ∧ ∀ name ∈ a.name, hasControl name = false := by
  have hfields : (∀ a ∈ addresses, ∃ text, addressField a = .ok text) ↔ ∀ a ∈ addresses,
      hasControl a.email = false ∧ ∀ name ∈ a.name, hasControl name = false := by
    simp only [addressField_ok_iff]
  rw [← hfields, ← mapM_ok_iff]
  unfold addressList
  cases h : addresses.mapM addressField with
  | error e => simp [bind, Except.bind]
  | ok texts => simp [bind, Except.bind, pure, Except.pure]

theorem bccHeader_filed_ok_iff {bcc : List EmailAddress} : (∃ text, bccHeader bcc .filed = .ok text) ↔
      ∀ a ∈ bcc, hasControl a.email = false ∧ ∀ name ∈ a.name, hasControl name = false := by
  cases bcc with
  | nil => simp [bccHeader, pure, Except.pure]
  | cons a bcc =>
    rw [← addressList_ok_iff]
    unfold bccHeader
    cases h : addressList (a :: bcc) with
    | error e => simp [bind, Except.bind]
    | ok text => simp [bind, Except.bind, pure, Except.pure]

theorem assembleFiledMessage_ok_iff {assembler : Assembler κ δ} {draft : Draft κ} {date : δ}
    {message : List UInt8} (h : assembleMessage assembler draft date = .ok message) :
    (∃ m, assembleFiledMessage assembler draft date = .ok m) ↔ ∃ text, bccHeader draft.bcc .filed = .ok text := by
  have hto : toHeader draft.addressees .filed = toHeader draft.addressees .wire := by simp [toHeader]
  simp only [assembleMessage, assembleFiledMessage, assemble, hto, bind_eq_ok] at h ⊢
  obtain ⟨messageId, hid, sender, hsender, addressees, haddressees, cc, hcc, -, -, subject, hsubject,
    inReplyTo, hreply, references, hreferences, date, hdate, body, hbody, -⟩ := h
  simp only [hid, hsender, haddressees, hcc, hsubject, hreply, hreferences, hdate, hbody,
    Except.ok.injEq, exists_eq_left', pure, Except.pure]
  constructor
  · rintro ⟨m, text, htext, -⟩
    exact ⟨text, htext⟩
  · rintro ⟨text, htext⟩
    exact ⟨_, text, htext, rfl⟩

end Rfc5322

namespace Rfc5322

/-!
## The body of a message

The text of a draft, its HTML form and a calendar object are alternatives of one another; inline attachments
are related to them, and what else is attached is mixed in.  Each kind of part that has more than one member is
a multipart, whose boundary is made from the identifier of the message.
-/

inductive ScheduleMethod
  | publish
  | request
  | reply
  | add
  | cancel
  | refresh
  | counter
  | declineCounter
  /-- A method no standard defines, kept as it is. -/
  | other (value : String)
deriving DecidableEq, Repr

def ScheduleMethod.asStr : ScheduleMethod → String
  | .publish => "publish"
  | .request => "request"
  | .reply => "reply"
  | .add => "add"
  | .cancel => "cancel"
  | .refresh => "refresh"
  | .counter => "counter"
  | .declineCounter => "declinecounter"
  | .other value => value

structure DraftCalendar where
  ical : String
  method : ScheduleMethod
deriving DecidableEq, Repr

structure ContentIdHeader where
  text : String
  nonempty : text ≠ ""
  allowed : ∀ c ∈ text.toList, c ∉ ['\r', '\n', '\x00', '<', '>']
deriving DecidableEq, Repr

inductive Disposition
  | inline (contentId : ContentIdHeader)
  | attachment
deriving DecidableEq, Repr

structure DraftAttachment where
  fileName : String
  mediaType : String
  content : List UInt8
  disposition : Disposition
deriving DecidableEq, Repr

def DraftAttachment.isInline (attachment : DraftAttachment) : Bool :=
  match attachment.disposition with
  | .inline _ => true
  | .attachment => false

/-- What the body of a message is made of. -/
structure Content where
  textBody : String
  htmlBody : Option String
  attachments : List DraftAttachment
  calendar : Option DraftCalendar
deriving DecidableEq, Repr

structure Part where
  contentHeaders : String
  body : List UInt8
deriving DecidableEq, Repr

/-- The lines of a body.  CR LF ends a line, and so does a CR or an LF alone. -/
def normalizeBodyLines : List Char → List (List Char)
  | [] => [[]]
  | '\r' :: '\n' :: rest => [] :: normalizeBodyLines rest
  | c :: rest =>
    if c = '\r' ∨ c = '\n' then [] :: normalizeBodyLines rest
    else
      match normalizeBodyLines rest with
      | [] => [[c]]
      | line :: lines => (c :: line) :: lines

def base64Body (content : List UInt8) : List UInt8 :=
  (chunks 76 (Utf8.bytes (Base64.encode content))).flatMap fun line => line ++ [13, 10]

def textPart (kind body : String) : Part :=
  let subtype := if kind = "html" then "html" else "plain"
  { contentHeaders := s!"Content-Type: text/{subtype}; charset=utf-8\r\n"
    body := (normalizeBodyLines body.toList).flatMap fun line => Utf8.bytes line ++ [13, 10] }

/-- The lines of a calendar object.  One that ends with a line break has no empty line after it. -/
def calendarLines (ical : String) : List (List Char) :=
  let lines := normalizeBodyLines ical.toList
  if lines.getLast? = some [] then lines.dropLast else lines

def toAsciiUppercase (text : String) : String := String.ofList (text.toList.map Char.toUpper)

def calendarPart (calendar : DraftCalendar) : Part :=
  let body := (calendarLines calendar.ical).flatMap fun line => Utf8.bytes line ++ [13, 10]
  let method := toAsciiUppercase calendar.method.asStr
  { contentHeaders :=
      s!"Content-Type: text/calendar; charset=utf-8; method={method}\r\nContent-Transfer-Encoding: base64\r\n"
    body := base64Body body }

def isMediaTypeChar (c : Char) : Bool := c.isAlphanum || c = '/' || c = '+' || c = '-' || c = '.'

def mediaType (value : String) : Except ProviderError String := do
  let value ← rejectControl "attachment media type" value
  if value = "" ∨ ¬value.toList.all isMediaTypeChar then
    throw (.permanent "attachment media type is not safe for a MIME header")
  else return value

def hexDigit (n : Nat) : Char := (Nat.digitChar n).toUpper

def percentByte (byte : UInt8) : List Char :=
  let c := Char.ofNat byte.toNat
  if c.isAlphanum ∨ c = '.' ∨ c = '-' ∨ c = '_' then [c]
  else ['%', hexDigit (byte.toNat / 16), hexDigit (byte.toNat % 16)]

def percentEncode (bytes : List UInt8) : String := String.ofList (bytes.flatMap percentByte)

/-- A parameter of a content header: quoted where it is printable ASCII, percent-encoded where it is not. -/
def parameter (name value : String) : Except ProviderError String := do
  let value ← rejectControl "attachment filename" value
  if isAsciiPrintable value then
    let escaped := String.ofList (value.toList.flatMap escapeQuoted)
    return s!"{name}=\"{escaped}\""
  else
    let encoded := percentEncode value.toUTF8.toList
    return s!"{name}*=utf-8''{encoded}"

def attachmentPart (attachment : DraftAttachment) : Except ProviderError Part := do
  let mediaType ← mediaType attachment.mediaType
  let name ← parameter "name" attachment.fileName
  let filename ← parameter "filename" attachment.fileName
  let contentHeaders := s!"Content-Type: {mediaType}; {name}\r\nContent-Transfer-Encoding: base64\r\n"
  match attachment.disposition with
  | .inline contentId =>
    let id ← rejectControl "Content-ID" contentId.text
    return { contentHeaders := contentHeaders ++ s!"Content-ID: <{id}>\r\nContent-Disposition: inline; {filename}\r\n"
             body := base64Body attachment.content }
  | .attachment =>
    return { contentHeaders := contentHeaders ++ s!"Content-Disposition: attachment; {filename}\r\n"
             body := base64Body attachment.content }

def multipart (subtype boundary : String) (parts : List Part) : Part where
  contentHeaders := s!"Content-Type: multipart/{subtype}; boundary=\"{boundary}\"\r\n"
  body :=
    (parts.flatMap fun part =>
      s!"--{boundary}\r\n".toUTF8.toList ++ part.contentHeaders.toUTF8.toList ++ [13, 10] ++ part.body) ++
    s!"--{boundary}--\r\n".toUTF8.toList

def boundary (messageId kind : String) : String :=
  let seed := String.ofList ((messageId.toList.map fun c => if c.isAlphanum then c else '_').take 48)
  if seed = "" then s!"=_pim_engine_{kind}" else s!"=_pim_engine_{kind}_{seed}"

/-- The representations of a message, from the least faithful to the most. -/
def bodyPart (messageId : String) (content : Content) : Part :=
  let text := textPart "plain" content.textBody
  let html := content.htmlBody.toList.map (textPart "html")
  let calendar := content.calendar.toList.map calendarPart
  if html = [] ∧ calendar = [] then text
  else multipart "alternative" (boundary messageId "alternative") (text :: html ++ calendar)

def enclose (messageId kind : String) (body : Part) (attachments : List DraftAttachment) :
    Except ProviderError Part :=
  if attachments = [] then return body
  else do
    let parts ← attachments.mapM attachmentPart
    return multipart kind (boundary messageId kind) (body :: parts)

def Content.inline (content : Content) : List DraftAttachment := content.attachments.filter (·.isInline)

def Content.regular (content : Content) : List DraftAttachment := content.attachments.filter fun a => !a.isInline

def mimeBody (messageId : String) (content : Content) : Except ProviderError MimeBody := do
  let body ← enclose messageId "related" (bodyPart messageId content) content.inline
  let body ← enclose messageId "mixed" body content.regular
  return { contentHeaders := body.contentHeaders, body := body.body }

/-- Assembly of the messages with an identifier; the instant is written by a formatter. -/
def assembler {δ : Type} (messageId : String) (formatDate : δ → Except String String) : Assembler Content δ where
  mime := mimeBody messageId
  formatDate := formatDate

def assembled {δ : Type} (formatDate : δ → Except String String) (draft : Draft Content) (date : δ)
    (assembly : Assembly) : Except ProviderError (List UInt8) :=
  assemble (assembler draft.messageId formatDate) draft date assembly

end Rfc5322
end SyncEngine
