import SyncEngine.Filing.Copies
import SyncEngine.Smtp.Outcome

/-!
# A delivered message is a sent one

Nothing that goes wrong with the sender's copy may be reported as a failure of the send.  The message on the wire names
no blind-copy recipient, so the filed copy is assembled a second time and a name in it is checked for the first time:
one that holds a line break or a NUL makes the send fail after the delivery.
-/

namespace SyncEngine
namespace Filing

open Dialogue

open Smtp

open Dialogue (Runs runs_bind runs_bind_except runs_lift_bind runs_lift runs_pure runs_pure_except
  runs_throw runs_within runs_request)
open Rfc5322 (Draft Assembler EmailAddress hasControl assembleMessage assembleFiledMessage)

/-! ## What a delivery has been through -/

variable {t : List Step} {u : Unit}

theorem rejectControl_clean {field value : String}
    (h : Runs (rejectControl field value).run t (.ok u)) : hasControl value = false := by
  unfold rejectControl at h
  by_cases hc : hasControl value = true
  · rw [hasControl] at hc
    rw [if_pos hc] at h
    cases (runs_throw.mp h).2
  · simpa using hc

theorem rejectControls_clean {addresses : List String} (h : Runs (rejectControls addresses).run t (.ok u)) :
    ∀ a ∈ addresses, hasControl a = false := by
  induction addresses generalizing t with
  | nil => simp
  | cons address rest ih =>
    unfold rejectControls at h
    rcases runs_bind_except.mp h with ⟨e, -, hr⟩ | ⟨t₁, u₁, t₂, -, h₁, h₂⟩
    · cases hr
    · intro a ha
      rcases List.mem_cons.mp ha with rfl | ha
      · exact rejectControl_clean h₁
      · exact ih h₂ a ha

variable {s : Submission}

theorem greet_clean (h : Runs (greet s).run t (.ok u)) : ∀ a ∈ s.rcptTo, hasControl a = false := by
  unfold greet at h
  rcases runs_bind_except.mp h with ⟨e, -, hr⟩ | ⟨t₁, u₁, t₂, -, -, h₂⟩
  · cases hr
  · rcases runs_bind_except.mp h₂ with ⟨e, -, hr⟩ | ⟨t₃, u₃, t₄, -, h₃, -⟩
    · cases hr
    · exact rejectControls_clean h₃

theorem envelope_clean {answered : Except SmtpResult (List Recipient)}
    (h : Runs (envelope s).run t (.ok answered)) : ∀ a ∈ s.rcptTo, hasControl a = false := by
  unfold envelope at h
  rcases runs_bind_except.mp h with ⟨e, -, hr⟩ | ⟨t₁, u₁, t₂, -, h₁, -⟩
  · cases hr
  · exact greet_clean h₁

variable {recipients : List Recipient}

theorem converse_delivered (h : Runs (converse s).run t (.ok ⟨recipients, .delivered⟩)) :
    (⟨.commit, .ok ()⟩ : Step) ∈ t ∧ ∀ a ∈ s.rcptTo, hasControl a = false := by
  unfold converse at h
  rcases runs_bind_except.mp h with ⟨e, -, hr⟩ | ⟨t₀, answered, t₁, rfl, henv, hrest⟩
  · cases hr
  have hquiet := only_of_runs henv (envelope_only s)
  refine ⟨?_, envelope_clean henv⟩
  cases answered with
  | error result =>
    obtain ⟨code, text, -, rfl, -⟩ := envelope_refused henv
    obtain ⟨-, hr⟩ := runs_pure_except.mp hrest
    injection hr with hr
    injection hr with _ hr
    exact absurd hr.symm (classify_ne_delivered code text)
  | ok accepted =>
    dsimp only at hrest
    by_cases haccepted : accepted.any Recipient.accepted = true
    · rw [if_pos haccepted] at hrest
      have hsafe := transfer_safe hquiet hrest
      obtain ⟨before, x, after, e, hx, -⟩ := hsafe.delivered recipients rfl
      rw [e]
      exact List.mem_append_left _ (hsafe.recorded before x after e hx)
    · rw [if_neg haccepted] at hrest
      obtain ⟨t₂, u, t₃, -, -, hend⟩ := runs_lift_bind.mp hrest
      obtain ⟨-, hr⟩ := runs_pure_except.mp hend
      injection hr with hr
      injection hr with _ hr
      cases hr

theorem send_delivered (h : Runs (send s).run t (.ok ⟨recipients, .delivered⟩)) :
    (⟨.commit, .ok ()⟩ : Step) ∈ t ∧ ∀ a ∈ s.rcptTo, hasControl a = false := by
  unfold send at h
  rcases runs_bind_except.mp h with ⟨e, -, hr⟩ | ⟨t₁, u, t₂, rfl, -, hconverse⟩
  · cases hr
  · obtain ⟨hcommit, hclean⟩ := converse_delivered hconverse
    exact ⟨List.mem_append_right _ hcommit, hclean⟩

/-! ## Every recipient's address was checked -/

theorem toLower_eq_iff {c d : Char} (hd : d.toNat < 65) : c.toLower = d ↔ c = d := by
  by_cases h : 'A'.val ≤ c.val ∧ c.val ≤ 'Z'.val
  · have hc : 65 ≤ c.toNat ∧ c.toNat ≤ 90 := by
      simpa [UInt32.le_iff_toNat_le] using h
    have hlow : c.toLower.toNat = c.toNat + 32 := by
      unfold Char.toLower
      rw [dif_pos h]
      show (c.val + ('a'.val - 'A'.val)).toNat = c.val.toNat + 32
      rw [UInt32.toNat_add]
      have hupper : c.val.toNat ≤ 90 := hc.2
      have hshift : ('a'.val - 'A'.val).toNat = 32 := by decide
      omega
    constructor
    · intro e
      rw [e] at hlow
      omega
    · intro e
      rw [e] at hc
      omega
  · unfold Char.toLower
    rw [dif_neg h]

theorem hasControl_lower (value : String) :
    (value.toList.map Char.toLower).any (fun c => c = '\r' || c = '\n' || c = '\x00') = hasControl value := by
  unfold hasControl
  rw [List.any_map]
  congr 1
  funext c
  have hcr : c.toLower = '\r' ↔ c = '\r' := toLower_eq_iff (by decide)
  have hlf : c.toLower = '\n' ↔ c = '\n' := toLower_eq_iff (by decide)
  have hnul : c.toLower = '\x00' ↔ c = '\x00' := toLower_eq_iff (by decide)
  simp [hcr, hlf, hnul]

variable {addresses : List EmailAddress} {a : EmailAddress}

theorem mem_distinct {seen : List (List Char)} (ha : a ∈ addresses) (hseen : a.email.toList.map Char.toLower ∉ seen) :
    ∃ email ∈ distinct seen addresses, email.toList.map Char.toLower = a.email.toList.map Char.toLower := by
  induction addresses generalizing seen with
  | nil => simp at ha
  | cons b rest ih =>
    unfold distinct
    by_cases hb : b.email.toList.map Char.toLower ∈ seen
    · rw [if_pos hb]
      rcases List.mem_cons.mp ha with rfl | ha
      · exact absurd hb hseen
      · exact ih ha hseen
    · rw [if_neg hb]
      by_cases he : b.email.toList.map Char.toLower = a.email.toList.map Char.toLower
      · exact ⟨b.email, List.mem_cons_self, he⟩
      · have ha : a ∈ rest := by
          rcases List.mem_cons.mp ha with rfl | ha
          · exact absurd rfl he
          · exact ha
        have hnew : a.email.toList.map Char.toLower ∉ b.email.toList.map Char.toLower :: seen := by
          simp [Ne.symm he, hseen]
        obtain ⟨email, hmem, hlower⟩ := ih ha hnew
        exact ⟨email, List.mem_cons_of_mem _ hmem, hlower⟩

theorem clean_of_distinct (h : ∀ email ∈ distinct [] addresses, hasControl email = false)
    (ha : a ∈ addresses) : hasControl a.email = false := by
  obtain ⟨email, hmem, hlower⟩ := mem_distinct ha List.not_mem_nil
  rw [← hasControl_lower, ← hlower, hasControl_lower]
  exact h email hmem

/-! ## The send as a whole -/

variable {σ ρ κ δ : Type}

def Event.ofSmtp (x : Step) : Event σ ρ := ⟨.smtp x.request, x.answer⟩

def Delivered (assembler : Assembler κ δ) (now : δ) (draft : Draft κ) (auth : Option SmtpAuth)
    (t : List (Event σ ρ)) : Prop :=
  ∃ s before after recipients, prepare assembler now draft auth = .ok s ∧
    t = before.map Event.ofSmtp ++ after ∧ Runs (send s).run before (.ok ⟨recipients, .delivered⟩)

/-- A hand-over that was recorded can be recorded again. -/
def CommitStays (t : List (Event σ ρ)) : Prop :=
  ∀ before a after, t = before ++ ⟨.smtp .commit, a⟩ :: after →
    ⟨.smtp .commit, .ok ()⟩ ∈ before → a = .ok ()

/-- The blind-copy recipients' names hold nothing a header may not. -/
def PlainBcc (draft : Draft κ) : Prop := ∀ a ∈ draft.bcc, ∀ name ∈ a.name, hasControl name = false

section Send

variable {folders : Folders σ ρ} {assembler : Assembler κ δ} {now : δ} {draft : Draft κ}
  {auth : Option SmtpAuth} {t : List (Event σ ρ)} {r : Except ProviderError SubmissionReceipt}

theorem prepare_ok {s : Submission} (h : prepare assembler now draft auth = .ok s) :
    assembleMessage assembler draft now = .ok s.message ∧
      s.rcptTo = distinct [] (draft.addressees ++ draft.cc ++ draft.bcc) := by
  unfold prepare at h
  obtain ⟨message, hm, hs⟩ := Fallible.bind_eq_ok.mp h
  cases hs
  exact ⟨hm, rfl⟩

variable {message : List UInt8}

theorem filedMessage_ok_iff (h : assembleMessage assembler draft now = .ok message)
    (hclean : ∀ a ∈ draft.bcc, hasControl a.email = false) :
    (∃ m, filedMessage assembler now draft message = .ok m) ↔ PlainBcc draft := by
  unfold filedMessage PlainBcc
  by_cases hb : draft.bcc.isEmpty = true
  · rw [if_pos hb]
    rw [List.isEmpty_iff] at hb
    simp [hb]
  · rw [if_neg hb, Rfc5322.assembleFiledMessage_ok_iff h, Rfc5322.bccHeader_filed_ok_iff]
    constructor
    · intro hall a ha
      exact (hall a ha).2
    · intro hall a ha
      exact ⟨hclean a ha, hall a ha⟩

theorem handedOver_runs {r : Except ProviderError Unit} (h : Runs (handedOver (σ := σ) (ρ := ρ)).run t r) :
    ∃ a : Answer .commit, t = [⟨.smtp .commit, a⟩] ∧ (a = .ok () → r = .ok ()) := by
  obtain ⟨t₁, a, t₂, rfl, hcommit, hend⟩ := runs_bind.mp h
  obtain rfl : t₁ = [⟨.smtp .commit, a⟩] := runs_request.mp hcommit
  cases a with
  | error detail =>
    obtain ⟨rfl, -⟩ := runs_pure.mp hend
    exact ⟨.error detail, rfl, fun e => nomatch e⟩
  | ok u =>
    obtain ⟨rfl, rfl⟩ := runs_pure.mp hend
    exact ⟨.ok u, rfl, fun _ => rfl⟩

theorem fileDelivered_ok_iff (hr : Runs (fileDelivered folders assembler now draft message).run t r)
    (hcommit : ∀ a after, t = ⟨.smtp .commit, a⟩ :: after → a = .ok ()) :
    (∃ receipt, r = .ok receipt) ↔ ∃ m, filedMessage assembler now draft message = .ok m := by
  unfold fileDelivered at hr
  rcases runs_bind_except.mp hr with ⟨e, hfail, rfl⟩ | ⟨t₁, u, t₂, rfl, -, hr⟩
  · obtain ⟨a, ht, hok⟩ := handedOver_runs hfail
    cases hok (hcommit a [] ht)
  rcases runs_bind_except.mp hr with ⟨e, hfail, rfl⟩ | ⟨t₃, filed, t₄, rfl, hfiled, hr⟩
  · obtain ⟨-, hfiled⟩ := runs_pure.mp hfail
    rw [← hfiled]
    simp
  obtain ⟨-, hfiled⟩ := runs_pure.mp hfiled
  rw [← hfiled]
  obtain ⟨t₅, placed, t₆, -, -, hend⟩ := runs_lift_bind.mp hr
  cases placed with
  | ok placed =>
    obtain ⟨-, rfl⟩ := runs_pure_except.mp hend
    simp
  | error detail =>
    obtain ⟨-, rfl⟩ := runs_pure_except.mp hend
    simp

theorem submitOver_delivered (hr : Runs (submitOver folders assembler now draft auth).run t r)
    (hdelivered : Delivered assembler now draft auth t) :
    ∃ s before after, prepare assembler now draft auth = .ok s ∧ t = before.map Event.ofSmtp ++ after ∧
      (∃ recipients, Runs (send s).run before (.ok ⟨recipients, .delivered⟩)) ∧
      Runs (fileDelivered folders assembler now draft s.message).run after r := by
  obtain ⟨s, before, after, recipients, hprepare, rfl, hsend⟩ := hdelivered
  unfold submitOver at hr
  rw [hprepare] at hr
  rcases runs_bind_except.mp hr with ⟨e, hfail, -⟩ | ⟨t₁, s', t₂, ht, hs, hr⟩
  · cases (runs_pure.mp hfail).2
  obtain ⟨rfl, hs⟩ := runs_pure.mp hs
  cases hs
  refine ⟨s, before, after, hprepare, rfl, ⟨recipients, hsend⟩, ?_⟩
  have hwithin : Runs (within (A := Ask.Answer σ ρ) Ask.smtp (send s).run)
      (before.map Event.ofSmtp) (.ok ⟨recipients, .delivered⟩) :=
    (runs_within Ask.smtp).mpr ⟨before, hsend, rfl⟩
  rcases runs_bind_except.mp hr with ⟨e, hfail, -⟩ | ⟨t₃, result, t₄, rfl, hconversed, hr⟩
  · obtain ⟨t₅, r₅, t₆, rfl, h₅, hend⟩ := runs_bind.mp hfail
    obtain ⟨rfl, hend⟩ := runs_pure.mp hend
    have heq : before.map Event.ofSmtp ++ after = t₅ ++ [] := by simpa using ht
    obtain ⟨-, rfl⟩ := hwithin.unique h₅ heq
    cases hend
  · obtain ⟨t₅, r₅, t₆, rfl, h₅, hend⟩ := runs_bind.mp hconversed
    obtain ⟨rfl, hend⟩ := runs_pure.mp hend
    have heq : before.map Event.ofSmtp ++ after = t₅ ++ t₄ := by simpa using ht
    obtain ⟨rfl, rfl⟩ := hwithin.unique h₅ heq
    cases hend
    have hafter : after = t₄ := by simpa using ht
    rw [hafter]
    exact hr

/-- Whatever happens to the sender's copy, a delivered message is reported as sent exactly where its
blind-copy recipients' names can be written in a header, and no folder gains two copies of it. -/
theorem delivered_ok_iff (hr : Runs (submitOver folders assembler now draft auth).run t r)
    (hlog : CommitStays t) (hsees : SearchSees draft.messageId t) :
    (Delivered assembler now draft auth t → ((∃ receipt, r = .ok receipt) ↔ PlainBcc draft)) ∧
      ∀ folder, copies folder t ≤ 1 := by
  refine ⟨?_, copies_le_one hr hsees⟩
  intro hdelivered
  obtain ⟨s, before, after, hprepare, rfl, ⟨recipients, hsend⟩, hfile⟩ := submitOver_delivered hr hdelivered
  obtain ⟨hcommit, hclean⟩ := send_delivered hsend
  obtain ⟨hmessage, hrcpt⟩ := prepare_ok hprepare
  have hemails : ∀ a ∈ draft.bcc, hasControl a.email = false := by
    intro a ha
    rw [hrcpt] at hclean
    exact clean_of_distinct hclean (List.mem_append_right _ ha)
  rw [fileDelivered_ok_iff hfile, filedMessage_ok_iff hmessage hemails]
  intro a rest e
  have hrecorded : (⟨.smtp .commit, .ok ()⟩ : Event σ ρ) ∈ before.map Event.ofSmtp :=
    List.mem_map.mpr ⟨⟨.commit, .ok ()⟩, hcommit, rfl⟩
  exact hlog (before.map Event.ofSmtp) a rest (by rw [e]) hrecorded

/-! ## A name with a line break -/

theorem commitStays_of_all (h : ∀ x ∈ t, ∀ a, x = ⟨.smtp .commit, a⟩ → a = .ok ()) : CommitStays t := by
  intro before a after e _
  exact h ⟨.smtp .commit, a⟩ (by simp [e]) a rfl

theorem searchSees_of_all {messageId : String}
    (h : ∀ x ∈ t, ∀ folder c, x ≠ ⟨.uidSearch folder c, .ok []⟩) : SearchSees messageId t := by
  intro before folder uids after e _ hnil
  exact h ⟨.uidSearch folder (criteria messageId), .ok uids⟩ (by simp [e]) folder _ (by rw [hnil])

end Send

namespace Sample

def assembler : Assembler Unit Unit :=
  ⟨fun _ => .ok ⟨"", []⟩, fun _ => .ok "Thu, 01 Jan 2026 00:00:00 +0000"⟩

def folders : Folders Unit Unit := ⟨fun _ => "*", fun _ name => name, fun _ _ => some "Sent"⟩

/-- A draft to one recipient, with a blind copy to another. -/
def draft (name : String) : Draft Unit where
  messageId := "m1@test.local"
  sender := ⟨none, "alice@test.local"⟩
  addressees := [⟨none, "bob@test.local"⟩]
  cc := []
  bcc := [⟨some name, "eve@test.local"⟩]
  subject := "Hello"
  content := ()
  inReplyTo := none
  references := []
  sentCopyKeywords := []

/-- A server that takes everything. -/
def smtpServer : Peer Request Answer
  | past, .readLine =>
    match asked .readLine past with
    | .readLine => .ok "220 ready\r\n"
    | .line .data => .ok "354 go on\r\n"
    | _ => .ok "250 OK\r\n"
  | _, .line _ | _, .body _ | _, .terminator | _, .commit => .ok ()

/-- The exchanges with the SMTP server among those of a send. -/
def smtpPast (past : List (Event Unit Unit)) : List Step :=
  past.filterMap fun x => match x with
    | ⟨.smtp r, a⟩ => some ⟨r, a⟩
    | _ => none

/-- The answer of the first `APPEND` is lost on the way, and the copy is in the folder. -/
def server : Peer Ask (Ask.Answer Unit Unit)
  | past, .smtp r => smtpServer (smtpPast past) r
  | _, .session | _, .acquireChecked | _, .create _ | _, .uidStore _ _ _ => .ok ()
  | _, .storeOn => .ok ()
  | _, .list _ => .ok []
  | _, .select _ => .ok ⟨1, true⟩
  | past, .append folder _ _ =>
    ⟨true, if copies folder past = 0 then .error ⟨.retryable, "connection closed", false⟩ else .ok (some (1, 8))⟩
  | past, .uidSearch folder _ => .ok (if copies folder past = 0 then [] else [7])

def submitted (name : String) : List (Event Unit Unit) × Except ProviderError SubmissionReceipt :=
  run server [] (submitOver folders assembler () (draft name) none).run

end Sample

section Sent

open Sample

/-- Whether an exchange is neither a record that failed nor a search that found nothing. -/
def undisturbed : Event Unit Unit → Bool
  | ⟨.smtp .commit, .error _⟩ => false
  | ⟨.uidSearch _ _, .ok []⟩ => false
  | _ => true

variable {name : String}

theorem commitStays_submitted (h : (submitted name).1.all undisturbed = true) : CommitStays (submitted name).1 := by
  refine commitStays_of_all fun x hx a e => ?_
  have hx := List.all_eq_true.mp h x hx
  rw [e] at hx
  cases a with
  | error detail => simp [undisturbed] at hx
  | ok u => rfl

theorem searchSees_submitted {messageId : String}
    (h : (submitted name).1.all undisturbed = true) : SearchSees messageId (submitted name).1 := by
  refine searchSees_of_all fun x hx folder c e => ?_
  have hx := List.all_eq_true.mp h x hx
  rw [e] at hx
  simp [undisturbed] at hx

/-- The submission of the draft, whose message names no blind-copy recipient. -/
def prepared : Submission where
  ehloDomain := "test.local"
  mailFrom := "alice@test.local"
  rcptTo := ["bob@test.local", "eve@test.local"]
  message := (assembleMessage assembler (draft "") ()).toOption.getD []
  auth := none

def conversed : List Step × Except ImapError SmtpResult :=
  run smtpServer [] (send prepared).run

theorem delivered_submitted (hprepare : prepare assembler () (draft name) none = .ok prepared)
    (ht : (submitted name).1 = conversed.1.map Event.ofSmtp ++ (submitted name).1.drop conversed.1.length) :
    Delivered assembler () (draft name) none (submitted name).1 := by
  have hresult : conversed.2 = .ok ⟨[⟨"bob@test.local", true, "OK"⟩, ⟨"eve@test.local", true, "OK"⟩],
      .delivered⟩ := by rfl
  have hruns := runs_run smtpServer (send prepared).run
  rw [show (run smtpServer [] (send prepared).run).2 = _ from hresult] at hruns
  exact ⟨prepared, conversed.1, _, _, hprepare, ht, hruns⟩

/-- A plain name: the message is delivered and reported as sent, and the copy whose `APPEND` was
never answered is found, not made again. -/
theorem delivered_ok_answerLost : (∃ receipt, (submitted "Eve").2 = .ok receipt) ∧
    (∀ folder, copies folder (submitted "Eve").1 ≤ 1) ∧ copies "Sent" (submitted "Eve").1 = 1 ∧
    ∃ flags message, ⟨.append "Sent" flags message, ⟨true, .error ⟨.retryable, "connection closed", false⟩⟩⟩ ∈
      (submitted "Eve").1 := by
  have hquiet : (submitted "Eve").1.all undisturbed = true := by decide
  have hsent := delivered_ok_iff (runs_run server _) (commitStays_submitted hquiet) (searchSees_submitted hquiet)
  refine ⟨(hsent.1 (delivered_submitted (by rfl) (by rfl))).mpr ?_, hsent.2, by decide, _, _,
    List.mem_of_getElem? (i := 20) rfl⟩
  intro a ha name hname
  simp only [draft, List.mem_singleton] at ha
  subst ha
  cases hname
  decide

theorem delivered_reported_failed :
    Runs (submitOver folders assembler () (draft "E\nve") none).run (submitted "E\nve").1 (submitted "E\nve").2 ∧
      CommitStays (submitted "E\nve").1 ∧
      SearchSees (draft "E\nve").messageId (submitted "E\nve").1 ∧
      Delivered assembler () (draft "E\nve") none (submitted "E\nve").1 ∧
      (submitted "E\nve").2 = .error
        (.permanent "display name contains a forbidden control character (CR, LF, or NUL)") := by
  have hquiet : (submitted "E\nve").1.all undisturbed = true := by decide
  refine ⟨runs_run server _, commitStays_submitted hquiet, searchSees_submitted hquiet,
    delivered_submitted (by rfl) (by rfl), ?_⟩
  rfl

end Sent

end Filing
end SyncEngine
