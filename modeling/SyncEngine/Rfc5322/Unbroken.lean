import SyncEngine.Rfc5322.Written

/-!
# What cannot break out of a message

Whatever a draft holds, its message is whole lines, its header section is the fields it was to have, and the other
end of a connection finds where it stops.  The header section of each part is the fields the part was to have as
well, but for one value that is not looked at: the method of a calendar object.
-/

namespace SyncEngine
namespace Rfc5322

open Crlf

open Utf8 (encoded encoded_append toUTF8_toList)
open Crlf (Field IsLine join)
open Fallible (bind_eq_ok mapM_ok_forall₂)
open Multipart (Entity)

/-! ## The fields of a message -/

def addressText (address : EmailAddress) : String :=
  match address.name with
  | none => address.email
  | some name =>
    let phrase := encodeHeaderPhrase name
    let email := address.email
    s!"{phrase} <{email}>"

def addressesText (addresses : List EmailAddress) : String := ", ".intercalate (addresses.map addressText)

def addressesField (name : String) (addresses : List EmailAddress) : List Field :=
  if addresses = [] then [] else [field name (addressesText addresses)]

def recipientFields (draft : Draft Content) (assembly : Assembly) : List Field :=
  (if draft.addressees = [] ∧ assembly ≠ .draft then [field "To" "undisclosed-recipients:;"]
    else addressesField "To" draft.addressees) ++
  addressesField "Cc" draft.cc ++ (if assembly = .wire then [] else addressesField "Bcc" draft.bcc)

def referenceText (id : String) : String := s!"<{id}>"

def threadingFields (draft : Draft Content) : List Field :=
  (draft.inReplyTo.toList.map fun parent => field "In-Reply-To" (referenceText parent)) ++
  if draft.references = [] then []
  else [field "References" (" ".intercalate (draft.references.map referenceText))]

def envelopeFields (date : String) (draft : Draft Content) (assembly : Assembly) : List Field :=
  [field "Date" date, field "Message-ID" (referenceText draft.messageId), field "From" (addressText draft.sender)] ++
  recipientFields draft assembly ++ threadingFields draft ++
  [field "Subject" (encodeHeaderText draft.subject), field "MIME-Version" "1.0"]

/-! ## Header texts -/

/-- A text that stands for some fields, each on a line of its own. -/
structure Heads (text : String) (fields : List Field) : Prop where
  lines : encoded text = join (fields.map Field.line)
  valid : ∀ f ∈ fields, f.Valid

theorem heads_nil : Heads "" [] := ⟨by decide, by simp⟩

variable {text name : String}

theorem heads_field {value : String} (htext : text = name ++ ": " ++ value ++ "\r\n") (hname : IsName name)
    (hvalue : OneLine value) : Heads text [field name value] where
  lines := by rw [htext, encoded_last_field, List.map_cons, List.map_nil]
  valid := List.forall_mem_singleton.mpr (field_valid hname hvalue)

theorem Heads.append {s t : String} {fs gs : List Field} (hs : Heads s fs) (ht : Heads t gs) :
    Heads (s ++ t) (fs ++ gs) where
  lines := by rw [encoded_append, hs.lines, ht.lines, List.map_append, join_append]
  valid := List.forall_mem_append.mpr ⟨hs.valid, ht.valid⟩

theorem oneLine_intercalate {separator : String} {texts : List String} (hs : OneLine separator)
    (h : ∀ text ∈ texts, OneLine text) : OneLine (separator.intercalate texts) := by
  have hmem : ∀ c ∈ (separator.intercalate texts).toList, c ∈ separator.toList ∨ ∃ text ∈ texts, c ∈ text.toList := by
    rw [String.toList_intercalate]
    induction texts with
    | nil =>
      intro c hc
      exact absurd hc List.not_mem_nil
    | cons text texts ih =>
      have hrest := ih fun text' ht => h text' (List.mem_cons_of_mem text ht)
      intro c hc
      cases texts with
      | nil =>
        rw [List.map_cons, List.map_nil, List.intercalate_singleton] at hc
        exact .inr ⟨text, List.mem_cons_self, hc⟩
      | cons next texts =>
        rw [List.map_cons, List.map_cons, List.intercalate_cons_cons, List.mem_append, List.mem_append] at hc
        rcases hc with (hc | hc) | hc
        · exact .inr ⟨text, List.mem_cons_self, hc⟩
        · exact .inl hc
        · rcases hrest c hc with hc | ⟨text', htext', hc⟩
          · exact .inl hc
          · exact .inr ⟨text', List.mem_cons_of_mem text htext', hc⟩
  constructor
  · intro hc
    rcases hmem _ hc with hc | ⟨text, htext, hc⟩
    · exact hs.1 hc
    · exact (h text htext).1 hc
  · intro hc
    rcases hmem _ hc with hc | ⟨text, htext, hc⟩
    · exact hs.2 hc
    · exact (h text htext).2 hc

theorem oneLine_encodeHeaderText (h : OneLine text) : OneLine (encodeHeaderText text) := by
  unfold encodeHeaderText
  split
  · exact h
  · exact oneLine_encodedWord text

theorem oneLine_encodeHeaderPhrase (h : OneLine name) : OneLine (encodeHeaderPhrase name) := by
  unfold encodeHeaderPhrase
  split
  · have hquote : ∀ c ∈ ['"'], c ≠ '\r' ∧ c ≠ '\n' := by decide
    have hinner := oneLine_escaped h
    rw [OneLine, String.toList_ofList] at hinner
    apply oneLine_ofList
    intro c hc
    rw [List.mem_append, List.mem_cons] at hc
    rcases hc with (rfl | hc) | hc
    · decide
    · exact ⟨fun e => hinner.1 (e ▸ hc), fun e => hinner.2 (e ▸ hc)⟩
    · exact hquote c hc
  · exact oneLine_encodedWord name

theorem oneLine_referenceText {id : String} (h : OneLine id) : OneLine (referenceText id) := by
  have hless : OneLine "<" := by decide
  have hmore : OneLine ">" := by decide
  simp only [referenceText, toString, oneLine_append]
  exact ⟨⟨hless, h⟩, hmore⟩

theorem addressField_eq_ok {address : EmailAddress} (h : addressField address = .ok text) :
    text = addressText address ∧ OneLine text := by
  obtain ⟨email, hemail, hrest⟩ := bind_eq_ok.mp h
  obtain ⟨hcontrol, rfl⟩ := rejectControl_eq_ok hemail
  have hline := oneLine_of_hasControl hcontrol
  unfold addressText
  cases hn : address.name with
  | none =>
    rw [hn] at hrest
    obtain rfl := Except.ok.inj hrest
    exact ⟨rfl, hline⟩
  | some name =>
    rw [hn] at hrest
    obtain ⟨name', hname, hlast⟩ := bind_eq_ok.mp hrest
    obtain ⟨hcontrol', rfl⟩ := rejectControl_eq_ok hname
    obtain rfl := Except.ok.inj hlast
    have hphrase := oneLine_encodeHeaderPhrase (oneLine_of_hasControl hcontrol')
    have hless : OneLine " <" := by decide
    have hmore : OneLine ">" := by decide
    refine ⟨rfl, ?_⟩
    simp only [toString, oneLine_append]
    exact ⟨⟨⟨hphrase, hless⟩, hline⟩, hmore⟩

theorem addressList_eq_ok {addresses : List EmailAddress} (h : addressList addresses = .ok text) :
    text = addressesText addresses ∧ OneLine text := by
  obtain ⟨texts, htexts, hrest⟩ := bind_eq_ok.mp h
  obtain rfl := Except.ok.inj hrest
  have hall : texts = addresses.map addressText ∧ ∀ text ∈ texts, OneLine text := by
    have hmap := mapM_ok_forall₂ htexts
    clear htexts h hrest
    induction hmap with
    | nil => exact ⟨rfl, by simp⟩
    | cons hfirst _ ih =>
      obtain ⟨rfl, hline⟩ := addressField_eq_ok hfirst
      exact ⟨by rw [ih.1, List.map_cons], List.forall_mem_cons.mpr ⟨hline, ih.2⟩⟩
  exact ⟨by rw [hall.1, addressesText], oneLine_intercalate (by decide) hall.2⟩

variable {assembly : Assembly}

theorem toHeader_heads {draft : Draft Content} (h : toHeader draft.addressees assembly = .ok text) :
    Heads text (if draft.addressees = [] ∧ assembly ≠ .draft then [field "To" "undisclosed-recipients:;"]
      else addressesField "To" draft.addressees) := by
  unfold toHeader at h
  by_cases hnil : draft.addressees = []
  · rw [if_pos (by rw [hnil]; rfl)] at h
    obtain rfl := Except.ok.inj h
    by_cases hdraft : assembly = .draft
    · rw [if_pos hdraft, if_neg (by simp [hdraft]), addressesField, if_pos hnil]
      exact heads_nil
    · rw [if_neg hdraft, if_pos ⟨hnil, hdraft⟩]
      exact heads_field rfl (by decide) (by decide)
  · rw [if_neg (by simpa using hnil)] at h
    obtain ⟨list, hlist, hrest⟩ := bind_eq_ok.mp h
    obtain rfl := Except.ok.inj hrest
    obtain ⟨rfl, hline⟩ := addressList_eq_ok hlist
    rw [if_neg (fun hboth => hnil hboth.1), addressesField, if_neg hnil]
    exact heads_field rfl (by decide) hline

theorem ccHeader_heads {cc : List EmailAddress} (h : ccHeader cc = .ok text) : Heads text (addressesField "Cc" cc) := by
  unfold ccHeader at h
  by_cases hnil : cc = []
  · rw [if_pos (by rw [hnil]; rfl)] at h
    obtain rfl := Except.ok.inj h
    rw [addressesField, if_pos hnil]
    exact heads_nil
  · rw [if_neg (by simpa using hnil)] at h
    obtain ⟨list, hlist, hrest⟩ := bind_eq_ok.mp h
    obtain rfl := Except.ok.inj hrest
    obtain ⟨rfl, hline⟩ := addressList_eq_ok hlist
    rw [addressesField, if_neg hnil]
    exact heads_field rfl (by decide) hline

theorem bccHeader_heads {bcc : List EmailAddress} (h : bccHeader bcc assembly = .ok text) :
    Heads text (if assembly = .wire then [] else addressesField "Bcc" bcc) := by
  unfold bccHeader at h
  by_cases hwire : assembly = .wire
  · rw [if_pos (by simp [hwire])] at h
    obtain rfl := Except.ok.inj h
    rw [if_pos hwire]
    exact heads_nil
  · rw [if_neg hwire, addressesField]
    by_cases hnil : bcc = []
    · rw [if_pos (by simp [hnil])] at h
      obtain rfl := Except.ok.inj h
      rw [if_pos hnil]
      exact heads_nil
    · rw [if_neg (by simp [hwire, hnil])] at h
      obtain ⟨list, hlist, hrest⟩ := bind_eq_ok.mp h
      obtain rfl := Except.ok.inj hrest
      obtain ⟨rfl, hline⟩ := addressList_eq_ok hlist
      rw [if_neg hnil]
      exact heads_field rfl (by decide) hline

theorem inReplyToHeader_heads {parent : Option String} (h : inReplyToHeader parent = .ok text) :
    Heads text (parent.toList.map fun parent => field "In-Reply-To" (referenceText parent)) := by
  cases parent with
  | none =>
    obtain rfl := Except.ok.inj h
    exact heads_nil
  | some parent =>
    obtain ⟨id, hid, hrest⟩ := bind_eq_ok.mp h
    obtain ⟨hcontrol, rfl⟩ := rejectControl_eq_ok hid
    obtain rfl := Except.ok.inj hrest
    have hopen : "In-Reply-To: <" = "In-Reply-To" ++ (": " ++ "<") := rfl
    have hclose : ">\r\n" = ">" ++ "\r\n" := rfl
    have htext : s!"In-Reply-To: <{id}>\r\n" = "In-Reply-To" ++ ": " ++ referenceText id ++ "\r\n" := by
      simp only [referenceText, toString, hopen, hclose, String.append_assoc]
    exact heads_field htext (by decide) (oneLine_referenceText (oneLine_of_hasControl hcontrol))

theorem referencesHeader_heads {references : List String} (h : referencesHeader references = .ok text) :
    Heads text (if references = [] then []
      else [field "References" (" ".intercalate (references.map referenceText))]) := by
  unfold referencesHeader at h
  by_cases hnil : references = []
  · rw [if_pos (by rw [hnil]; rfl)] at h
    obtain rfl := Except.ok.inj h
    rw [if_pos hnil]
    exact heads_nil
  · rw [if_neg (by simpa using hnil)] at h
    obtain ⟨ids, hids, hrest⟩ := bind_eq_ok.mp h
    obtain rfl := Except.ok.inj hrest
    have hall : ids = references.map referenceText ∧ ∀ id ∈ ids, OneLine id := by
      have hmap := mapM_ok_forall₂ hids
      clear hids h hrest hnil
      induction hmap with
      | nil => exact ⟨rfl, by simp⟩
      | cons hfirst _ ih =>
        obtain ⟨id, hid, hlast⟩ := bind_eq_ok.mp hfirst
        obtain ⟨hcontrol, rfl⟩ := rejectControl_eq_ok hid
        obtain rfl := Except.ok.inj hlast
        have hline := oneLine_referenceText (oneLine_of_hasControl hcontrol)
        exact ⟨by rw [ih.1, List.map_cons]; rfl, List.forall_mem_cons.mpr ⟨hline, ih.2⟩⟩
    rw [if_neg hnil, ← hall.1]
    exact heads_field rfl (by decide) (oneLine_intercalate (by decide) hall.2)

section Message

variable {δ : Type} {formatDate : δ → Except String String} {draft : Draft Content} {date : δ} {assembly : Assembly}
  {message : List UInt8}

/-- A message as lines: those of the envelope and of the body it has, and what an attachment of it was accepted
with. -/
structure Written (text : String) (draft : Draft Content) (assembly : Assembly) (message : List UInt8) : Prop where
  lines : message = join ((envelopeFields text draft assembly ++
    (contentEntity draft.messageId draft.content).fields).map Field.line ++
      [] :: (contentEntity draft.messageId draft.content).body)
  envelope : ∀ f ∈ envelopeFields text draft assembly, f.Valid
  accepted : ∀ a ∈ draft.content.attachments, a.Accepted

theorem assembled_written (hdate : ∀ d text, formatDate d = .ok text → OneLine text)
    (h : assembled formatDate draft date assembly = .ok message) :
    ∃ text, formatDate date = .ok text ∧ Written text draft assembly message := by
  simp only [assembled, assemble, bind_eq_ok] at h
  obtain ⟨messageId, hid, sender, hsender, addressees, haddressees, cc, hcc, bcc, hbcc, subject, hsubject, inReplyTo,
    hreply, references, hreferences, text, htext, body, hbody, hmessage⟩ := h
  obtain rfl := Except.ok.inj hmessage
  obtain ⟨hidControl, rfl⟩ := rejectControl_eq_ok hid
  obtain ⟨hsubjectControl, rfl⟩ := rejectControl_eq_ok hsubject
  obtain ⟨rfl, hsenderLine⟩ := addressField_eq_ok hsender
  have hformat : formatDate date = .ok text := by
    unfold dateText at htext
    cases hf : formatDate date with
    | error e =>
      rw [show (assembler draft.messageId formatDate).formatDate date = .error e from hf] at htext
      cases htext
    | ok t =>
      rw [show (assembler draft.messageId formatDate).formatDate date = .ok t from hf] at htext
      rw [Except.ok.inj htext]
  obtain ⟨haccepted, hwritten⟩ := mimeBody_written hbody
  have hopening : Heads s!"Date: {text}\r\nMessage-ID: <{draft.messageId}>\r\nFrom: {addressText draft.sender}\r\n"
      [field "Date" text, field "Message-ID" (referenceText draft.messageId),
        field "From" (addressText draft.sender)] := by
    have hmiddle : "\r\nMessage-ID: <" = "\r\n" ++ ("Message-ID" ++ (": " ++ "<")) := rfl
    have hlast : ">\r\nFrom: " = ">" ++ ("\r\n" ++ ("From" ++ ": ")) := rfl
    have hfirst : "Date: " = "Date" ++ ": " := rfl
    have hdateField : Heads ("Date" ++ ": " ++ text ++ "\r\n") [field "Date" text] :=
      heads_field rfl (by decide) (hdate date text hformat)
    have hidField : Heads ("Message-ID" ++ ": " ++ referenceText draft.messageId ++ "\r\n")
        [field "Message-ID" (referenceText draft.messageId)] :=
      heads_field rfl (by decide) (oneLine_referenceText (oneLine_of_hasControl hidControl))
    have hfromField : Heads ("From" ++ ": " ++ addressText draft.sender ++ "\r\n")
        [field "From" (addressText draft.sender)] := heads_field rfl (by decide) hsenderLine
    have hall := (hdateField.append hidField).append hfromField
    simp only [referenceText, toString, String.append_assoc] at hall
    simp only [toString, hfirst, hmiddle, hlast, String.append_assoc]
    exact hall
  have hclosing : Heads (s!"Subject: {encodeHeaderText draft.subject}\r\nMIME-Version: 1.0\r\n")
      [field "Subject" (encodeHeaderText draft.subject), field "MIME-Version" "1.0"] := by
    have hfirst : "Subject: " = "Subject" ++ ": " := rfl
    have hlast : "\r\nMIME-Version: 1.0\r\n" = "\r\n" ++ ("MIME-Version" ++ (": " ++ ("1.0" ++ "\r\n"))) := rfl
    have hsubjectField : Heads ("Subject" ++ ": " ++ encodeHeaderText draft.subject ++ "\r\n")
        [field "Subject" (encodeHeaderText draft.subject)] :=
      heads_field rfl (by decide) (oneLine_encodeHeaderText (oneLine_of_hasControl hsubjectControl))
    have hversion : Heads ("MIME-Version" ++ ": " ++ "1.0" ++ "\r\n") [field "MIME-Version" "1.0"] :=
      heads_field rfl (by decide) (by decide)
    have hall := hsubjectField.append hversion
    simp only [String.append_assoc] at hall
    simp only [toString, hfirst, hlast, String.append_assoc]
    exact hall
  have hrecipients := ((toHeader_heads haddressees).append (ccHeader_heads hcc)).append (bccHeader_heads hbcc)
  have hthreading := (inReplyToHeader_heads hreply).append (referencesHeader_heads hreferences)
  have henvelope : Heads _ (envelopeFields text draft assembly) :=
    ((hopening.append hrecipients).append hthreading).append hclosing
  refine ⟨text, hformat, ⟨?_, henvelope.valid, haccepted⟩⟩
  have hlines := henvelope.lines
  have hfields := hwritten.fields
  have hbodyLines := hwritten.body
  dsimp only at hfields hbodyLines
  simp only [toString, String.append_assoc] at hlines ⊢
  rw [toUTF8_toList, hbodyLines]
  simp only [← String.append_assoc] at hlines ⊢
  rw [encoded_append, hlines, hfields, List.map_append, join_append, join_append, join_cons]
  simp only [List.append_assoc, List.cons_append, List.nil_append]

/-- A part of a message, with the fields it is to have. -/
inductive PartOf (draft : Draft Content) : Part → List Field → Prop
  | text : PartOf draft (textPart "plain" draft.content.textBody) (textFields "plain")
  | html {html : String} (h : html ∈ draft.content.htmlBody) : PartOf draft (textPart "html" html) (textFields "html")
  | calendar {calendar : DraftCalendar} (h : calendar ∈ draft.content.calendar) :
    PartOf draft (calendarPart calendar) (calendarFields calendar)
  | attachment {attachment : DraftAttachment} {part : Part} (h : attachment ∈ draft.content.attachments)
    (hpart : attachmentPart attachment = .ok part) : PartOf draft part (attachmentFields attachment)
  | multipart {kind : String} {parts : List Part} (h : kind ∈ ["alternative", "related", "mixed"]) :
    PartOf draft (multipart kind (boundary draft.messageId kind) parts)
      (multipartFields kind (boundary draft.messageId kind))

/-- A message nothing breaks out of: no line break stands alone, the header section is the fields the message was to
have, and so is that of every part, and the message is taken off a connection as it was put there. -/
structure Unbroken (formatDate : δ → Except String String) (draft : Draft Content) (date : δ) (assembly : Assembly)
    (message : List UInt8) : Prop where
  noBare : NoBare message
  ends : [13, 10] <:+ message
  header : ∃ text, formatDate date = .ok text ∧ header? message =
    some (envelopeFields text draft assembly ++ (contentEntity draft.messageId draft.content).fields)
  parts : ∀ part fields, PartOf draft part fields → fields? (encoded part.contentHeaders) = some fields
  framed : ∀ rest, Smtp.received (Smtp.dotStuff message ++ Smtp.Request.terminator.wire ++ rest) = some (message, rest)

theorem partOf_fields {part : Part} {fields : List Field} (h : PartOf draft part fields)
    (hmethod : ∀ calendar ∈ draft.content.calendar, OneLine calendar.method.asStr) :
    encoded part.contentHeaders = join (fields.map Field.line) ∧ ∀ f ∈ fields, f.Valid := by
  cases h with
  | text => exact ⟨(textPart_written (.inr rfl)).fields, textFields_valid (by decide)⟩
  | html h => exact ⟨(textPart_written (.inl rfl)).fields, textFields_valid (by decide)⟩
  | calendar h => exact ⟨(calendarPart_written _).fields, calendarFields_valid (hmethod _ h)⟩
  | attachment h hpart =>
    obtain ⟨haccepted, hwritten⟩ := attachmentPart_written hpart
    exact ⟨hwritten.fields, attachmentFields_valid haccepted⟩
  | @multipart kind parts h =>
    have hkind : OneLine kind ∧ ∀ c ∈ kind.toList, c.isAlphanum = true := by
      simp only [List.mem_cons, List.not_mem_nil, or_false] at h
      rcases h with rfl | rfl | rfl
      · exact ⟨by decide, by decide⟩
      · exact ⟨by decide, by decide⟩
      · exact ⟨by decide, by decide⟩
    exact ⟨multipart_headers kind _ parts, multipartFields_valid hkind.1 (oneLine_boundary hkind.2)⟩

/-- Nothing breaks out of a message exactly where its calendar object, if it has one, has a method without a line
break. -/
theorem assembled_unbroken_iff (hdate : ∀ d text, formatDate d = .ok text → OneLine text)
    (h : assembled formatDate draft date assembly = .ok message) :
    Unbroken formatDate draft date assembly message ↔
      ∀ calendar ∈ draft.content.calendar, OneLine calendar.method.asStr := by
  constructor
  · intro hunbroken calendar hcalendar
    have hfields := hunbroken.parts _ _ (.calendar hcalendar)
    have hline := isLine_of_fields? hfields _ List.mem_cons_self
    have hvalue := isLine_encoded_iff.mp hline
    simp only [toString, oneLine_append] at hvalue
    exact oneLine_toAsciiUppercase.mp hvalue.2.2
  · intro hmethod
    obtain ⟨text, hformat, hwritten⟩ := assembled_written hdate h
    have hwhole : Whole (contentEntity draft.messageId draft.content) := whole_content hwritten.accepted hmethod
    have hvalid : ∀ f ∈ envelopeFields text draft assembly ++ (contentEntity draft.messageId draft.content).fields,
        f.Valid := List.forall_mem_append.mpr ⟨hwritten.envelope, hwhole.fields⟩
    have hlines : ∀ l ∈ (envelopeFields text draft assembly ++
        (contentEntity draft.messageId draft.content).fields).map Field.line ++
          [] :: (contentEntity draft.messageId draft.content).body, IsLine l :=
      (Whole.mk hvalid hwhole.body : Whole ⟨_, _⟩).linesOf
    have hends : [13, 10] <:+ message := by
      rw [hwritten.lines]
      exact suffix_join (List.append_ne_nil_of_right_ne_nil _ (List.cons_ne_nil _ _))
    have hlast : message.getLast? = some 10 := by
      obtain ⟨front, rfl⟩ := hends
      simp
    refine ⟨?_, hends, ⟨text, hformat, ?_⟩, ?_, Smtp.received_dotStuff hlast⟩
    · rw [hwritten.lines]
      exact noBare_join hlines
    · rw [hwritten.lines]
      exact header?_join hvalid hwhole.body
    · intro part fields hpart
      obtain ⟨hheaders, hpartValid⟩ := partOf_fields hpart hmethod
      rw [hheaders]
      exact fields?_join hpartValid

end Message

def exampleDate (_ : Unit) : Except String String := .ok "Sat, 20 Jun 2026 12:00:00 +0000"

def replyDraft (method : ScheduleMethod) : Draft Content where
  messageId := "imip@host"
  sender := ⟨none, "me@test.local"⟩
  addressees := [⟨none, "boss@test.local"⟩]
  cc := []
  bcc := []
  subject := "Accepted"
  content :=
    { textBody := "Accepted"
      htmlBody := none
      attachments := []
      calendar := some { ical := "BEGIN:VCALENDAR\r\nEND:VCALENDAR\r\n", method := method } }
  inReplyTo := none
  references := []
  sentCopyKeywords := []

theorem oneLine_exampleDate : ∀ d text, exampleDate d = .ok text → OneLine text := by
  intro d text h
  obtain rfl := Except.ok.inj h
  decide

theorem reply_unbroken : ∃ message, assembled exampleDate (replyDraft .reply) () .wire = .ok message ∧
    Unbroken exampleDate (replyDraft .reply) () .wire message := by
  have hmethod : ∀ calendar ∈ (replyDraft .reply).content.calendar, OneLine calendar.method.asStr := by
    intro calendar hcalendar
    obtain rfl := Option.some.inj hcalendar
    decide
  exact ⟨_, rfl, (assembled_unbroken_iff oneLine_exampleDate rfl).mpr hmethod⟩

/-- A method with a line feed breaks out of the header section of its part. -/
theorem injected_method_breaks : ∃ message,
    assembled exampleDate (replyDraft (.other "reply\nX-Injected: 1")) () .wire = .ok message ∧
      ¬ NoBare message ∧ ¬ Unbroken exampleDate (replyDraft (.other "reply\nX-Injected: 1")) () .wire message := by
  obtain ⟨message, h⟩ : ∃ message,
      assembled exampleDate (replyDraft (.other "reply\nX-Injected: 1")) () .wire = .ok message := ⟨_, rfl⟩
  obtain ⟨text, -, hwritten⟩ := assembled_written oneLine_exampleDate h
  have hbare : ¬ NoBare message := by
    intro hbare
    have hline : (field "Content-Type" "text/calendar; charset=utf-8; method=REPLY\nX-INJECTED: 1").line ∈
        (contentEntity "imip@host" (replyDraft (.other "reply\nX-Injected: 1")).content).body := by
      apply List.mem_append_left
      apply List.mem_flatMap.mpr
      refine ⟨calendarEntity ⟨"BEGIN:VCALENDAR\r\nEND:VCALENDAR\r\n", .other "reply\nX-Injected: 1"⟩, ?_, ?_⟩
      · exact List.mem_cons_of_mem _ List.mem_cons_self
      · exact List.mem_cons_of_mem _ (List.mem_append_left _ List.mem_cons_self)
    have hbreak : [89, 10] <:+: (field "Content-Type" "text/calendar; charset=utf-8; method=REPLY\nX-INJECTED: 1").line := by
      decide
    have hin : [89, 10] <:+: message := by
      rw [hwritten.lines]
      exact hbreak.trans (infix_join (List.mem_append_right _ (List.mem_cons_of_mem _ hline)))
    exact absurd (hbare.eq_of_infix hin) (by decide)
  exact ⟨message, h, hbare, fun hunbroken => hbare hunbroken.noBare⟩

end Rfc5322
end SyncEngine
