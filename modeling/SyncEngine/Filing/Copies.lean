import SyncEngine.Imap.Fetch
import SyncEngine.Rfc5322.Assemble
import SyncEngine.Smtp.Conversation

/-!
# One copy in Sent

A retry looks for the copy before it makes one.  So no folder gains two copies from one send, provided that
the server's `SEARCH` sees what its `APPEND` has committed, however many answers are lost.
-/

namespace SyncEngine
namespace Filing

/-!
## Sending a draft and filing its copy

A send delivers the message over SMTP and then files the sender's copy by `APPEND`.  The two can fail apart: a message
that was delivered and not filed is sent all the same.  The copy is filed on a pooled connection, and where that fails
once more on one proved alive, which first looks whether the copy is there: `APPEND` makes another each time.

Of an `APPEND` the answer also says whether the server committed it, which the program is not told where the response
is lost.
-/

open Rfc5322 (Draft EmailAddress Assembler assembleMessage assembleFiledMessage)

/-- What a `SELECT` says of a folder, as far as a placement reads it. -/
structure SelectData where
  uidValidity : Nat
  permanentFlagsAllowNew : Bool

/-- An `APPEND`: whether the message is in the folder, and what the client was told. -/
structure Appended where
  committed : Bool
  told : Except ProviderError (Option (Nat × Nat))

/-- How the folders of an account's store are found, for a store `σ` and rows `ρ` of a `LIST`. -/
structure Folders (σ ρ : Type) where
  listPattern : σ → String
  qualify : σ → String → String
  sentFolder : σ → List ρ → Option String

inductive Ask
  | smtp (r : Smtp.Request)
  | session
  | acquireChecked
  | storeOn
  | list (pattern : String)
  | create (name : String)
  | select (folder : String)
  | append (folder flags : String) (message : List UInt8)
  | uidSearch (folder criteria : String)
  | uidStore (folder uids item : String)

variable {σ ρ κ δ : Type}

@[reducible]
def Ask.Answer (σ ρ : Type) : Ask → Type
  | .smtp r => Smtp.Answer r
  | .session | .acquireChecked | .create _ | .uidStore _ _ _ => Except ProviderError Unit
  | .storeOn => Except ProviderError σ
  | .list _ => Except ProviderError (List ρ)
  | .select _ => Except ProviderError SelectData
  | .append _ _ _ => Appended
  | .uidSearch _ _ => Except ProviderError (List Nat)

abbrev Talk (σ ρ α : Type) := Dialogue Ask (Ask.Answer σ ρ) α

abbrev Filed (σ ρ α : Type) := ExceptT ProviderError (Dialogue Ask (Ask.Answer σ ρ)) α

def ask (σ ρ : Type) (q : Ask) : Talk σ ρ (q.Answer σ ρ) := Dialogue.request q

/-- An answer that is a value or a failure. -/
def called {α : Type} (call : Talk σ ρ (Except ProviderError α)) : Filed σ ρ α := ExceptT.mk call

/-! ## Placing the copy -/

structure Placed where
  folder : String
  appendUid : Option (Nat × Nat)
  keywords : List String

def quote (value : String) : String :=
  String.ofList ('"' :: value.toList.flatMap Rfc5322.escapeQuoted ++ ['"'])

/-- The search that finds a placed copy. -/
def criteria (messageId : String) : String := "HEADER Message-ID " ++ quote messageId

def keywordToFlag : String → String
  | "$seen" => "\\Seen"
  | "$flagged" => "\\Flagged"
  | "$answered" => "\\Answered"
  | "$draft" => "\\Draft"
  | keyword => keyword

def flagsWith (keywords : List String) : String :=
  (keywords.map keywordToFlag).foldl
    (fun flags flag =>
      if Smtp.eqIgnoreAsciiCase flag.toList "\\Seen".toList then flags else flags ++ " " ++ flag)
    "\\Seen"

def keepable (selected : SelectData) (asked : List String) : List String :=
  if selected.permanentFlagsAllowNew then asked else []

section Placing

variable (folders : Folders σ ρ) (store : σ)

/-- The folder with the Sent role, or the one of that name, made if it is not there. -/
def resolveFilingFolder : Filed σ ρ String := do
  let rows ← called (ask σ ρ (.list (folders.listPattern store)))
  match folders.sentFolder store rows with
  | some name => return name
  | none =>
    let name := folders.qualify store "Sent"
    let _ ← (ask σ ρ (.create name) : Dialogue Ask (Ask.Answer σ ρ) _)
    return name

/-- The keywords a folder keeps.  A `SELECT` that fails keeps none. -/
def keptKeywords (folder : String) (keywords : List String) : Talk σ ρ (List String) :=
  if keywords.isEmpty then return []
  else do
    match ← ask σ ρ (.select folder) with
    | .error _ => return []
    | .ok selected => return keepable selected keywords

def appendTo (folder : String) (keywords : List String) (message : List UInt8) : Filed σ ρ Placed := do
  let appended ← (ask σ ρ (.append folder (flagsWith keywords) message) :
    Dialogue Ask (Ask.Answer σ ρ) Appended)
  match appended.told with
  | .error e => throw e
  | .ok appendUid => return ⟨folder, appendUid, keywords⟩

def appendToRoleFolder (message : List UInt8) (keywords : List String) : Filed σ ρ Placed := do
  let folder ← resolveFilingFolder folders store
  let keywords ← (keptKeywords folder keywords : Dialogue Ask (Ask.Answer σ ρ) _)
  appendTo folder keywords message

def storeKeywords (folder : String) (uid : Nat) (keywords : List String) : Talk σ ρ (List String) :=
  if keywords.isEmpty then return []
  else do
    let flags := " ".intercalate (keywords.map keywordToFlag)
    match ← ask σ ρ (.uidStore folder (toString uid) s!"+FLAGS.SILENT ({flags})") with
    | .error _ => return []
    | .ok _ => return keywords

/-- Places the copy unless the folder has one of the message. -/
def placeIfAbsent (messageId : String) (message : List UInt8) (keywords : List String) :
    Filed σ ρ Placed := do
  let folder ← resolveFilingFolder folders store
  let selected ← called (ask σ ρ (.select folder))
  let uids ← called (ask σ ρ (.uidSearch folder (criteria messageId)))
  let keywords := keepable selected keywords
  match uids.max? with
  | some uid =>
    let keywords ← (storeKeywords folder uid keywords : Dialogue Ask (Ask.Answer σ ρ) _)
    return ⟨folder, some (selected.uidValidity, uid), keywords⟩
  | none => appendTo folder keywords message

end Placing

variable (folders : Folders σ ρ)

/-- On a pooled connection, which may have died since it was last used. -/
def fileOnPooled (message : List UInt8) (draft : Draft κ) : Filed σ ρ Placed := do
  called (ask σ ρ .session)
  let store ← called (ask σ ρ .storeOn)
  appendToRoleFolder folders store message draft.sentCopyKeywords

def refileOnACheckedSession (message : List UInt8) (draft : Draft κ) : Filed σ ρ Placed := do
  called (ask σ ρ .acquireChecked)
  let store ← called (ask σ ρ .storeOn)
  placeIfAbsent folders store draft.messageId message draft.sentCopyKeywords

def debugClass : FailureClass → String
  | .retryable => "Retryable"
  | .rateLimited => "RateLimited"
  | .authentication => "Authentication"
  | .conflict => "Conflict"
  | .invalidState => "InvalidState"
  | .needsResync => "NeedsResync"
  | .permanent => "Permanent"

def display (e : ProviderError) : String := s!"{debugClass e.failure} provider error: {e.message}"

def fileSentCopy (message : List UInt8) (draft : Draft κ) : Talk σ ρ (Except String Placed) := do
  match ← (fileOnPooled folders message draft).run with
  | .ok placed => return .ok placed
  | .error first =>
    match ← (refileOnACheckedSession folders message draft).run with
    | .ok placed => return .ok placed
    | .error retry => return .error s!"{display first}; retry on a fresh session: {display retry}"

/-! ## Sending -/

inductive SentCopy
  | filed
  | unfiled (detail : String)

structure SubmissionReceipt where
  emailKey : ProviderKey
  messageId : String
  sentCopy : SentCopy
  sentCopyKeywords : List String

/-- The server's own key where it told one, else one that the next sync of the folder resolves. -/
def placedKey (folder : String) (appendUid : Option (Nat × Nat)) (messageId : String) : ProviderKey :=
  match appendUid with
  | some (validity, uid) => Imap.messageKey folder validity uid
  | none => s!"sent:{messageId}"

/-- The envelope's recipients: each address once, whatever the case it is written in. -/
def distinct (seen : List (List Char)) : List EmailAddress → List String
  | [] => []
  | address :: rest =>
    let key := address.email.toList.map Char.toLower
    if key ∈ seen then distinct seen rest else address.email :: distinct (key :: seen) rest

def ehloDomain (email : String) : String :=
  if '@' ∈ email.toList then
    String.ofList (email.toList.reverse.takeWhile fun c => c ≠ '@').reverse
  else "localhost"

def prepare (assembler : Assembler κ δ) (now : δ) (draft : Draft κ) (auth : Option Smtp.SmtpAuth) :
    Except ProviderError Smtp.Submission := do
  let message ← assembleMessage assembler draft now
  return {
    ehloDomain := ehloDomain draft.sender.email
    mailFrom := draft.sender.email
    rcptTo := distinct [] (draft.addressees ++ draft.cc ++ draft.bcc)
    message
    auth }

def readGreeting : Smtp.Conversation Unit := do
  let (code, _) ← Smtp.readReply
  if code ≠ 220 then throw (.protocol s!"unexpected SMTP greeting code {code}")

def send (s : Smtp.Submission) : Smtp.Conversation Smtp.SmtpResult := do
  readGreeting
  Smtp.converse s

def ofSmtp : Smtp.ImapError → ProviderError
  | .io detail => ⟨.retryable, s!"IMAP transport error: {detail}", false⟩
  | .auth detail => ⟨.authentication, s!"IMAP authentication failed: {detail}", false⟩
  | .rateLimited detail =>
    ⟨.rateLimited, s!"server is limiting sign-ins for this account: {detail}", false⟩
  | .protocol detail => ⟨.permanent, s!"malformed IMAP response: {detail}", false⟩

def handedOver : Filed σ ρ Unit :=
  ExceptT.mk do
    match ← (Dialogue.within (A := Ask.Answer σ ρ) Ask.smtp Smtp.commit) with
    | .error detail =>
      return .error (.retryable s!"the send stopped before reaching the server, because the outbox could not record that it was about to: {detail}")
    | .ok _ => return .ok ()

/-- The sender's copy names the blind-copy recipients. -/
def filedMessage (assembler : Assembler κ δ) (now : δ) (draft : Draft κ) (message : List UInt8) :
    Except ProviderError (List UInt8) :=
  if draft.bcc.isEmpty then .ok message else assembleFiledMessage assembler draft now

/-- Files the copy of a delivered message, and says where it is or that there is none. -/
def fileDelivered (assembler : Assembler κ δ) (now : δ) (draft : Draft κ) (message : List UInt8) :
    Filed σ ρ SubmissionReceipt := do
  handedOver
  let filed ← (ExceptT.mk (pure (filedMessage assembler now draft message)) : Filed σ ρ _)
  match ← (ExceptT.lift (fileSentCopy folders filed draft) : Filed σ ρ _) with
  | .ok placed =>
    return ⟨placedKey placed.folder placed.appendUid draft.messageId, draft.messageId, .filed,
      placed.keywords⟩
  | .error detail =>
    return ⟨placedKey "Sent" none draft.messageId, draft.messageId, .unfiled detail, []⟩

def fileResult (assembler : Assembler κ δ) (now : δ) (draft : Draft κ) (message : List UInt8)
    (result : Smtp.SmtpResult) : Filed σ ρ SubmissionReceipt :=
  match result.disposition with
  | .delivered => fileDelivered folders assembler now draft message
  | .withheld detail => throw (.retryable detail)
  | .rejectedPermanent text => throw (.permanent s!"SMTP rejected: {text}")
  | .rejectedTransient text => throw (.retryable s!"SMTP deferred: {text}")
  | .ambiguous text => throw (.needsConfirmation s!"SMTP outcome ambiguous: {text}")

def conversation (s : Smtp.Submission) : Filed σ ρ Smtp.SmtpResult :=
  ExceptT.mk do
    return (← Dialogue.within (A := Ask.Answer σ ρ) Ask.smtp (send s).run).mapError ofSmtp

def submitOver (assembler : Assembler κ δ) (now : δ) (draft : Draft κ) (auth : Option Smtp.SmtpAuth) :
    Filed σ ρ SubmissionReceipt := do
  let s ← (ExceptT.mk (pure (prepare assembler now draft auth)) : Filed σ ρ _)
  let result ← conversation s
  fileResult folders assembler now draft s.message result

end Filing

namespace Filing

open Dialogue (Runs After Only after_bind_except after_lift_bind after_request after_of_only)
open Rfc5322 (Draft Assembler)

variable {σ ρ κ δ : Type}

abbrev Event (σ ρ : Type) := Exchange Ask (Ask.Answer σ ρ)

def placedIn (folder : String) : Event σ ρ → Bool
  | ⟨.append f _ _, a⟩ => f = folder && a.committed
  | _ => false

def copies (folder : String) (t : List (Event σ ρ)) : Nat := t.countP (placedIn folder)

def SearchSees (messageId : String) (t : List (Event σ ρ)) : Prop :=
  ∀ before folder uids after,
    t = before ++ ⟨.uidSearch folder (criteria messageId), .ok uids⟩ :: after →
      0 < copies folder before → uids ≠ []

/-- The folders a copy was placed in, and whether every search saw those placed before it. -/
structure Watch where
  placed : List String
  sees : Bool

namespace Watch

variable {messageId : String} {w : Watch}

def start : Watch := ⟨[], true⟩

def step (messageId : String) (w : Watch) : Event σ ρ → Watch
  | ⟨.append folder _ _, a⟩ => if a.committed then { w with placed := folder :: w.placed } else w
  | ⟨.uidSearch folder c, .ok uids⟩ =>
    if c = criteria messageId ∧ folder ∈ w.placed ∧ uids = [] then { w with sees := false } else w
  | _ => w

/-- No folder was given two copies. -/
def Single (w : Watch) : Prop := w.sees = true → w.placed.Nodup

/-- A request that neither places a copy nor looks for one. -/
def Idle : Ask → Prop
  | .append _ _ _ | .uidSearch _ _ => False
  | _ => True

theorem step_idle {q : Ask} (a : q.Answer σ ρ) (h : Idle q) : step messageId w ⟨q, a⟩ = w := by
  cases q with
  | append folder flags message => exact absurd h id
  | uidSearch folder c => exact absurd h id
  | _ => rfl

theorem after_idle {α : Type} {d : Talk σ ρ α} {P : Watch → α → Prop} (hd : Only Idle d)
    (h : ∀ a, P w a) : After (step messageId) w d P :=
  after_of_only hd (fun _ a hq => step_idle a hq) h

theorem count_placed (folder : String) (t : List (Event σ ρ)) :
    (t.foldl (step messageId) start).placed.count folder = copies folder t := by
  induction t using List.reverseRecOn with
  | nil => rfl
  | append_singleton t x ih =>
    rw [List.foldl_append, copies, List.countP_append, ← copies, ← ih]
    show (step messageId _ x).placed.count folder = _
    generalize t.foldl (step messageId) start = w
    match x with
    | ⟨.append f flags message, a⟩ =>
      by_cases ha : a.committed = true
      · by_cases hf : f = folder
        · simp [step, placedIn, ha, hf]
        · simp [step, placedIn, ha, hf]
      · simp [step, placedIn, ha]
    | ⟨.uidSearch f c, .ok uids⟩ =>
      by_cases hc : c = criteria messageId ∧ f ∈ w.placed ∧ uids = []
      · simp [step, placedIn, hc]
      · simp [step, placedIn, hc]
    | ⟨.uidSearch f c, .error e⟩ => simp [step, placedIn]
    | ⟨.smtp r, a⟩ => simp [step, placedIn]
    | ⟨.session, a⟩ | ⟨.acquireChecked, a⟩ | ⟨.storeOn, a⟩ | ⟨.list _, a⟩ | ⟨.create _, a⟩
    | ⟨.select _, a⟩ | ⟨.uidStore _ _ _, a⟩ => simp [step, placedIn]

theorem SearchSees.init {t : List (Event σ ρ)} {x : Event σ ρ} (h : SearchSees messageId (t ++ [x])) :
    SearchSees messageId t := by
  intro before folder uids after e
  exact h before folder uids (after ++ [x]) (by simp [e])

theorem sees_of_searchSees {t : List (Event σ ρ)} (h : SearchSees messageId t) :
    (t.foldl (step messageId) start).sees = true := by
  induction t using List.reverseRecOn with
  | nil => rfl
  | append_singleton t x ih =>
    have ht := ih (SearchSees.init h)
    rw [List.foldl_append]
    show (step messageId _ x).sees = true
    match x with
    | ⟨.append f flags message, a⟩ =>
      by_cases ha : a.committed = true
      · simpa [step, ha] using ht
      · simpa [step, ha] using ht
    | ⟨.uidSearch f c, .ok uids⟩ =>
      by_cases hc : c = criteria messageId ∧ f ∈ (t.foldl (step messageId) start).placed ∧ uids = []
      · obtain ⟨rfl, hf, hu⟩ := hc
        have hcopies : 0 < copies f t := by
          rw [← @count_placed σ ρ messageId f t]
          exact List.count_pos_iff.mpr hf
        exact absurd hu (h t f uids [] rfl hcopies)
      · simpa [step, hc] using ht
    | ⟨.uidSearch f c, .error e⟩ => exact ht
    | ⟨.smtp r, a⟩ => exact ht
    | ⟨.session, a⟩ | ⟨.acquireChecked, a⟩ | ⟨.storeOn, a⟩ | ⟨.list _, a⟩ | ⟨.create _, a⟩
    | ⟨.select _, a⟩ | ⟨.uidStore _ _ _, a⟩ => exact ht

end Watch

open Watch (Idle Single after_idle)

/-! ## Placing one -/

section Placing

variable {folders : Folders σ ρ} {store : σ} {messageId : String} {w : Watch}

theorem resolveFilingFolder_idle : Only Idle (resolveFilingFolder folders store).run := by
  refine Dialogue.only_bind_except (Dialogue.only_request trivial) fun rows => ?_
  cases folders.sentFolder store rows with
  | some name => exact Dialogue.only_pure _
  | none =>
    exact Dialogue.only_bind_except (Dialogue.only_lift (ε := ProviderError) (Dialogue.only_request trivial))
      fun _ => Dialogue.only_pure _

theorem keptKeywords_idle (folder : String) (keywords : List String) :
    Only Idle (keptKeywords folder keywords : Talk σ ρ _) := by
  unfold keptKeywords
  by_cases h : keywords.isEmpty = true
  · rw [if_pos h]
    exact Dialogue.only_pure _
  · rw [if_neg h]
    refine Dialogue.only_bind (Dialogue.only_request trivial) fun a => ?_
    cases a with
    | error e => exact Dialogue.only_pure _
    | ok selected => exact Dialogue.only_pure _

theorem storeKeywords_idle (folder : String) (uid : Nat) (keywords : List String) :
    Only Idle (storeKeywords folder uid keywords : Talk σ ρ _) := by
  unfold storeKeywords
  by_cases h : keywords.isEmpty = true
  · rw [if_pos h]
    exact Dialogue.only_pure _
  · rw [if_neg h]
    refine Dialogue.only_bind (Dialogue.only_request trivial) fun a => ?_
    cases a with
    | error e => exact Dialogue.only_pure _
    | ok u => exact Dialogue.only_pure _

theorem single_appendTo {folder : String} (keywords : List String) (message : List UInt8)
    (hw : w.Single) (hfolder : w.sees = true → folder ∉ w.placed) :
    After (Watch.step messageId) w (appendTo (σ := σ) (ρ := ρ) folder keywords message).run fun w _ => w.Single := by
  unfold appendTo
  rw [after_lift_bind]
  refine after_request.mpr fun appended => ?_
  have hnext : (Watch.step messageId w (⟨.append folder (flagsWith keywords) message, appended⟩ : Event σ ρ)).Single := by
    by_cases h : appended.committed = true
    · intro hs
      simp only [Watch.step, h, if_true] at hs ⊢
      exact List.nodup_cons.mpr ⟨hfolder hs, hw hs⟩
    · simpa [Watch.step, h] using hw
  cases appended.told with
  | error e => exact Dialogue.after_throw.mpr hnext
  | ok appendUid => exact Dialogue.after_pure_except.mpr hnext

theorem single_appendToRoleFolder (message : List UInt8) (keywords : List String) (hw : w.placed = []) :
    After (Watch.step messageId) w (appendToRoleFolder folders store message keywords).run fun w _ => w.Single := by
  have hsingle : w.Single := fun _ => by simp [hw]
  unfold appendToRoleFolder
  rw [after_bind_except]
  refine after_idle resolveFilingFolder_idle fun r => ?_
  cases r with
  | error e => exact hsingle
  | ok folder =>
    show After _ _ (ExceptT.run (liftM _ >>= _)) _
    rw [after_lift_bind]
    refine after_idle (keptKeywords_idle folder keywords) fun kept => ?_
    exact single_appendTo kept message hsingle fun _ => by simp [hw]

theorem single_placeIfAbsent (message : List UInt8) (keywords : List String) (hw : w.Single) :
    After (Watch.step messageId) w (placeIfAbsent folders store messageId message keywords).run fun w _ => w.Single := by
  unfold placeIfAbsent
  rw [after_bind_except]
  refine after_idle resolveFilingFolder_idle fun r => ?_
  cases r with
  | error e => exact hw
  | ok folder =>
    show After _ _ (ExceptT.run (called _ >>= _)) _
    rw [after_bind_except]
    refine after_idle (Dialogue.only_request trivial) fun r => ?_
    cases r with
    | error e => exact hw
    | ok selected =>
      show After _ _ (ExceptT.run (called _ >>= _)) _
      rw [after_bind_except]
      refine after_request.mpr fun r => ?_
      cases r with
      | error e => exact hw
      | ok uids =>
        have hnext : (Watch.step messageId w
            (⟨.uidSearch folder (criteria messageId), .ok uids⟩ : Event σ ρ)).Single := by
          by_cases h : folder ∈ w.placed ∧ uids = []
          · intro hs
            simp [Watch.step, h] at hs
          · simpa [Watch.step, h] using hw
        dsimp only
        cases hmax : uids.max? with
        | some uid =>
          show After _ _ (ExceptT.run (liftM _ >>= _)) _
          rw [after_lift_bind]
          refine after_idle (storeKeywords_idle folder uid _) fun kept => ?_
          exact Dialogue.after_pure_except.mpr hnext
        | none =>
          refine single_appendTo _ message hnext fun hs hmem => ?_
          have hempty : uids = [] := List.max?_eq_none_iff.mp hmax
          by_cases h : folder ∈ w.placed
          · simp [Watch.step, h, hempty] at hs
          · simp [Watch.step, h] at hmem

end Placing

/-! ## The whole send -/

section Send

variable {folders : Folders σ ρ} {w : Watch}

theorem single_fileSentCopy (message : List UInt8) (draft : Draft κ) (hw : w.placed = []) :
    After (Watch.step draft.messageId) w (fileSentCopy folders message draft) fun w _ => w.Single := by
  have hsingle : w.Single := fun _ => by simp [hw]
  have hfirst : After (Watch.step draft.messageId) w (fileOnPooled folders message draft).run fun w _ => w.Single := by
    unfold fileOnPooled
    rw [after_bind_except]
    refine after_idle (Dialogue.only_request trivial) fun r => ?_
    cases r with
    | error e => exact hsingle
    | ok u =>
      show After _ _ (ExceptT.run (called _ >>= _)) _
      rw [after_bind_except]
      refine after_idle (Dialogue.only_request trivial) fun r => ?_
      cases r with
      | error e => exact hsingle
      | ok store => exact single_appendToRoleFolder message _ hw
  unfold fileSentCopy
  rw [Dialogue.after_bind]
  refine hfirst.mono fun w r hw => ?_
  cases r with
  | ok placed => exact Dialogue.after_pure.mpr hw
  | error first =>
    show After _ _ ((refileOnACheckedSession folders message draft).run >>= _) _
    rw [Dialogue.after_bind]
    have hretry : After (Watch.step draft.messageId) w
        (refileOnACheckedSession folders message draft).run fun w _ => w.Single := by
      unfold refileOnACheckedSession
      rw [after_bind_except]
      refine after_idle (Dialogue.only_request trivial) fun r => ?_
      cases r with
      | error e => exact hw
      | ok u =>
        show After _ _ (ExceptT.run (called _ >>= _)) _
        rw [after_bind_except]
        refine after_idle (Dialogue.only_request trivial) fun r => ?_
        cases r with
        | error e => exact hw
        | ok store => exact single_placeIfAbsent message _ hw
    refine hretry.mono fun w r hw => ?_
    cases r with
    | ok placed => exact Dialogue.after_pure.mpr hw
    | error retry => exact Dialogue.after_pure.mpr hw

theorem smtp_idle {α : Type} (d : Dialogue Smtp.Request Smtp.Answer α) :
    Only Idle (Dialogue.within (A := Ask.Answer σ ρ) Ask.smtp d) := by
  refine (Dialogue.only_within (A := Ask.Answer σ ρ) Ask.smtp d).mono fun q hq => ?_
  obtain ⟨r, rfl⟩ := hq
  trivial

theorem conversation_idle (s : Smtp.Submission) : Only Idle (conversation (σ := σ) (ρ := ρ) s).run :=
  Dialogue.only_bind (smtp_idle (send s).run) fun _ => Dialogue.only_pure _

theorem handedOver_idle : Only Idle (handedOver (σ := σ) (ρ := ρ)).run := by
  refine Dialogue.only_bind (smtp_idle Smtp.commit) fun a => ?_
  cases a with
  | error detail => exact Dialogue.only_pure _
  | ok u => exact Dialogue.only_pure _

theorem single_fileDelivered (assembler : Assembler κ δ) (now : δ) (draft : Draft κ)
    (message : List UInt8) (hw : w.placed = []) :
    After (Watch.step draft.messageId) w (fileDelivered folders assembler now draft message).run fun w _ => w.Single := by
  have hsingle : w.Single := fun _ => by simp [hw]
  unfold fileDelivered
  rw [after_bind_except]
  refine after_idle handedOver_idle fun r => ?_
  cases r with
  | error e => exact hsingle
  | ok u =>
    show After _ _ (ExceptT.run (ExceptT.mk _ >>= _)) _
    rw [after_bind_except]
    refine Dialogue.after_pure.mpr ?_
    cases filedMessage assembler now draft message with
    | error e => exact hsingle
    | ok filed =>
      show After _ _ (ExceptT.run ((liftM (fileSentCopy folders filed draft) : Filed σ ρ _) >>= _)) _
      rw [after_lift_bind]
      refine (single_fileSentCopy filed draft hw).mono fun w r hw => ?_
      cases r with
      | ok placed => exact Dialogue.after_pure_except.mpr hw
      | error detail => exact Dialogue.after_pure_except.mpr hw

theorem single_submitOver (assembler : Assembler κ δ) (now : δ) (draft : Draft κ) (auth : Option Smtp.SmtpAuth) :
    After (Watch.step draft.messageId) Watch.start (submitOver folders assembler now draft auth).run
      fun w _ => w.Single := by
  have hstart : Watch.start.Single := fun _ => List.nodup_nil
  unfold submitOver
  rw [after_bind_except]
  refine Dialogue.after_pure.mpr ?_
  cases prepare assembler now draft auth with
  | error e => exact hstart
  | ok s =>
    show After _ _ (ExceptT.run (conversation s >>= _)) _
    rw [after_bind_except]
    refine after_idle (conversation_idle s) fun r => ?_
    cases r with
    | error e => exact hstart
    | ok result =>
      show After _ _ (fileResult folders assembler now draft s.message result).run _
      unfold fileResult
      cases result.disposition with
      | delivered => exact single_fileDelivered assembler now draft s.message rfl
      | _ => exact Dialogue.after_throw.mpr hstart

theorem copies_le_one {assembler : Assembler κ δ} {now : δ} {draft : Draft κ}
    {auth : Option Smtp.SmtpAuth} {t : List (Event σ ρ)} {r : Except ProviderError SubmissionReceipt}
    (hr : Runs (submitOver folders assembler now draft auth).run t r)
    (hsees : SearchSees draft.messageId t) (folder : String) : copies folder t ≤ 1 := by
  have hsingle := single_submitOver assembler now draft auth t r hr
  rw [← @Watch.count_placed σ ρ draft.messageId folder t]
  exact List.nodup_iff_count_le_one.mp (hsingle (Watch.sees_of_searchSees hsees)) folder

end Send

end Filing
end SyncEngine
