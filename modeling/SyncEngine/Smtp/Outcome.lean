import SyncEngine.Library.Delimited
import SyncEngine.Smtp.Envelope

/-!
# What a submission reports

The outcome decides between sending again, asking the user and giving up, so it has to be right for
whatever the server, the network and the record of the hand-over do.  It is, but for one answer: with
every recipient deferred the message is given up, as if a server had refused it for good.
-/

namespace SyncEngine
namespace Smtp

open Dialogue

/-- A reply that does not take what it answers: a recipient, the envelope, the start or the end of the
message. -/
def Refuses : Request → Nat → Prop
  | .line (.mailFrom _), code | .line (.rcptTo _), code | .terminator, code => isSuccess code = false
  | .line .data, code => code ≠ 354
  | _, _ => False

/-- A refusal other than a `4xx` was read. -/
def RefusedForGood (t : List Step) : Prop :=
  ∃ q code, (q, code) ∈ replies .readLine t ∧ Refuses q code ∧ isTransient code = false

/-- The promises of a submission that exchanged `t` and reported `r`. -/
structure Safe (t : List Step) (r : Except ImapError SmtpResult) : Prop where
  endedOnce : t.countP (fun x => x.request = .terminator) ≤ 1
  notInBody : ∀ x ∈ t, ∀ bytes, x.request = .body bytes →
    Request.terminator.wire ∉ byteLines bytes
  recorded : ∀ before x after, t = before ++ x :: after → x.request = .terminator →
    (⟨.commit, .ok ()⟩ : Step) ∈ before
  delivered : ∀ recipients, r = .ok ⟨recipients, .delivered⟩ →
    ∃ before x after, t = before ++ x :: after ∧ x.request = .terminator ∧
      ∃ y ∈ after, ∃ code, closes y = some code ∧ isSuccess code = true
  unanswered : ∀ before x after, t = before ++ x :: after → x.request = .terminator →
    (∀ y ∈ after, closes y = none) → ∃ recipients text, r = .ok ⟨recipients, .ambiguous text⟩
  refused : ∀ recipients text, r = .ok ⟨recipients, .rejectedPermanent text⟩ → RefusedForGood t

/-- The server took the sender and deferred every recipient, if there was one. -/
def AllDeferred (peer : Peer Request Answer) (s : Submission) : Prop :=
  (∃ recipients, (run peer [] (envelope s).run).2 = .ok (.ok recipients)) ∧
    ∀ p ∈ replies .readLine (run peer [] (envelope s).run).1, ∀ address,
      p.1 = .line (.rcptTo address) → isTransient p.2 = true

/-! ## Before the end of the message -/

variable {q : Request}

theorem Quiet.ne_terminator (h : Quiet q) : q ≠ .terminator := by
  intro e
  subst e
  exact h

variable {t : List Step} {r : Except ImapError SmtpResult}

theorem safe_of_unended (ht : ∀ x ∈ t, x.request ≠ .terminator)
    (hbody : ∀ x ∈ t, ∀ bytes, x.request = .body bytes → Request.terminator.wire ∉ byteLines bytes)
    (hdelivered : ∀ recipients, r ≠ .ok ⟨recipients, .delivered⟩)
    (hrefused : ∀ recipients text, r = .ok ⟨recipients, .rejectedPermanent text⟩ → RefusedForGood t) : Safe t r where
  endedOnce := by
    rw [List.countP_eq_zero.mpr]
    · exact Nat.zero_le 1
    · intro x hx
      simpa using ht x hx
  notInBody := hbody
  recorded := fun before x after e hx => absurd hx (ht x (by simp [e]))
  delivered := fun recipients e => absurd e (hdelivered recipients)
  unanswered := fun before x after e hx _ => absurd hx (ht x (by simp [e]))
  refused := hrefused

theorem safe_of_quiet (ht : ∀ x ∈ t, Quiet x.request) (hdelivered : ∀ recipients, r ≠ .ok ⟨recipients, .delivered⟩)
    (hrefused : ∀ recipients text, r = .ok ⟨recipients, .rejectedPermanent text⟩ → RefusedForGood t) : Safe t r := by
  refine safe_of_unended (fun x hx => (ht x hx).ne_terminator) ?_ hdelivered hrefused
  intro x hx bytes e
  have := ht x hx
  rw [e] at this
  exact absurd this id

theorem classify_ne_delivered (code : Nat) (text : String) : classify code text ≠ .delivered := by
  unfold classify
  split <;> simp

variable {code : Nat} {text : String}

theorem classify_permanent {text' : String}
    (h : classify code text = .rejectedPermanent text') : isTransient code = false := by
  unfold classify at h
  split at h
  · cases h
  · simpa using ‹¬isTransient code = true›

/-! ## The end of the message -/

theorem closes_of_replies {q' : Request} (h : (q', code) ∈ replies q t) : ∃ y ∈ t, closes y = some code := by
  induction t generalizing q with
  | nil => simp [replies] at h
  | cons x t ih =>
    cases hc : closes x with
    | none =>
      simp only [replies, hc] at h
      obtain ⟨y, hy, hclose⟩ := ih h
      exact ⟨y, List.mem_cons_of_mem x hy, hclose⟩
    | some code' =>
      simp only [replies, hc, List.mem_cons, Prod.mk.injEq] at h
      rcases h with ⟨-, rfl⟩ | h
      · exact ⟨x, List.mem_cons_self, hc⟩
      · obtain ⟨y, hy, hclose⟩ := ih h
        exact ⟨y, List.mem_cons_of_mem x hy, hclose⟩

/-- The disposition follows from the reply to the end of the message, or there was none. -/
def Concluded (after : List Step) (disposition : Disposition) : Prop :=
  (∃ text, disposition = .ambiguous text) ∨
    ∃ code text, (Request.terminator, code) ∈ replies .terminator after ∧
      disposition = if isSuccess code then .delivered else classify code text

theorem quit_runs {u : Unit} (h : quit.Runs t u) : ∃ a, t = [⟨.line .quit, a⟩] := by
  obtain ⟨t₁, r, t₂, rfl, hw, hend⟩ := runs_bind.mp h
  obtain ⟨rfl, -⟩ := runs_pure.mp hend
  obtain ⟨a, ha, -⟩ := attempt_runs hw
  exact ⟨a, by rw [List.append_nil, runs_request.mp ha]⟩

theorem acknowledgement_runs {disposition : Disposition} (h : acknowledgement.Runs t disposition) :
    (∀ y ∈ t, y.request = .readLine) ∧ Concluded t disposition := by
  obtain ⟨t₁, reply, t₂, rfl, hread, hclass⟩ := runs_bind.mp h
  have hreads := readReplyLines_reads hread
  cases reply with
  | error e =>
    obtain ⟨rfl, rfl⟩ := runs_pure.mp hclass
    rw [List.append_nil]
    exact ⟨hreads.only, .inl ⟨_, rfl⟩⟩
  | ok reply =>
    obtain ⟨rfl, rfl⟩ := runs_pure.mp hclass
    rw [List.append_nil]
    refine ⟨hreads.only, .inr ⟨reply.1, " ".intercalate reply.2, ?_, rfl⟩⟩
    rw [hreads.replies]
    simp [Except.toOption]

variable {recipients : List Recipient} {result : SmtpResult}

theorem conclude_runs (h : (conclude recipients).Runs t result) :
    ∃ a after, t = ⟨.terminator, a⟩ :: after ∧ (∀ y ∈ after, Quiet y.request) ∧ Concluded after result.disposition := by
  obtain ⟨t₁, answer, t₂, rfl, hend, hrest⟩ := runs_bind.mp h
  obtain rfl := runs_request.mp hend
  refine ⟨answer, t₂, rfl, ?_⟩
  cases answer with
  | error detail =>
    obtain ⟨rfl, rfl⟩ := runs_pure.mp hrest
    exact ⟨by simp, .inl ⟨_, rfl⟩⟩
  | ok u =>
    obtain ⟨t₃, disposition, t₄, rfl, hreply, htail⟩ := runs_bind.mp hrest
    obtain ⟨t₅, r, t₆, rfl, hquit, hlast⟩ := runs_bind.mp htail
    obtain ⟨a, rfl⟩ := quit_runs hquit
    obtain ⟨rfl, rfl⟩ := runs_pure.mp hlast
    obtain ⟨honly, hconcluded⟩ := acknowledgement_runs hreply
    constructor
    · intro y hy
      simp only [List.append_nil, List.mem_append, List.mem_singleton] at hy
      rcases hy with hy | rfl
      · rw [honly y hy]
        trivial
      · trivial
    · rcases hconcluded with hnone | ⟨code, text, hcode, hdisp⟩
      · exact .inl hnone
      · refine .inr ⟨code, text, ?_, hdisp⟩
        rw [replies_append]
        exact List.mem_append_left _ hcode

theorem safe_of_ended {before after : List Step} {a : Answer .terminator} (hbefore : ∀ y ∈ before, y.request ≠ .terminator)
    (hbody : ∀ y ∈ before, ∀ bytes, y.request = .body bytes → Request.terminator.wire ∉ byteLines bytes)
    (hcommit : (⟨.commit, .ok ()⟩ : Step) ∈ before) (hafter : ∀ y ∈ after, Quiet y.request)
    (hconcluded : Concluded after result.disposition) :
    Safe (before ++ ⟨.terminator, a⟩ :: after) (.ok result) := by
  have hunique : ∀ before' x' after', before ++ (⟨.terminator, a⟩ : Step) :: after =
      before' ++ x' :: after' → x'.request = .terminator → before' = before ∧ after' = after := by
    intro before' x' after' e hx'
    obtain ⟨h₁, -, h₂⟩ := cut_at_only (P := fun y : Step => y.request = .terminator) e hx' hbefore
      fun y hy => (hafter y hy).ne_terminator
    exact ⟨h₁, h₂⟩
  have hreplies : ∀ p ∈ replies .terminator after,
      p ∈ replies .readLine (before ++ (⟨.terminator, a⟩ : Step) :: after) := by
    intro p hp
    rw [replies_append]
    exact List.mem_append_right _ hp
  constructor
  case endedOnce =>
    have hzero : ∀ l : List Step, (∀ y ∈ l, y.request ≠ .terminator) →
        l.countP (fun x => x.request = .terminator) = 0 := by
      intro l hl
      exact List.countP_eq_zero.mpr fun y hy => by simpa using hl y hy
    rw [List.countP_append, List.countP_cons, hzero before hbefore, hzero after fun y hy => (hafter y hy).ne_terminator]
    simp
  case notInBody =>
    intro x hx bytes e
    rcases List.mem_append.mp hx with hx | hx
    · exact hbody x hx bytes e
    · rcases List.mem_cons.mp hx with rfl | hx
      · cases e
      · have := hafter x hx
        rw [e] at this
        exact absurd this id
  case recorded =>
    intro before' x' after' e hx'
    rw [(hunique before' x' after' e hx').1]
    exact hcommit
  case delivered =>
    intro recipients e
    cases e
    rcases hconcluded with ⟨text, h⟩ | ⟨code, text, hcode, h⟩
    · cases h
    · obtain ⟨y, hy, hclose⟩ := closes_of_replies hcode
      refine ⟨before, _, after, rfl, rfl, y, hy, code, hclose, ?_⟩
      by_contra hfail
      simp only [hfail] at h
      exact classify_ne_delivered code text h.symm
  case unanswered =>
    intro before' x' after' e hx' hnone
    obtain ⟨-, rfl⟩ := hunique before' x' after' e hx'
    obtain ⟨recipients, disposition⟩ := result
    rcases hconcluded with ⟨text, h⟩ | ⟨code, text, hcode, -⟩
    · have hdisp : disposition = .ambiguous text := h
      exact ⟨recipients, text, by rw [hdisp]⟩
    · obtain ⟨y, hy, hclose⟩ := closes_of_replies hcode
      rw [hnone y hy] at hclose
      cases hclose
  case refused =>
    intro recipients text' e
    cases e
    rcases hconcluded with ⟨text, h⟩ | ⟨code, text, hcode, h⟩
    · cases h
    · by_cases hsuccess : isSuccess code = true
      · simp only [hsuccess, if_true] at h
        cases h
      · simp only [hsuccess] at h
        exact ⟨.terminator, code, hreplies _ hcode, by simpa [Refuses] using hsuccess, classify_permanent h.symm⟩

/-! ## The whole conversation -/

variable {s : Submission} {t₀ : List Step}

/-- The message itself, once the server waits for it: nothing written of it ends it, and the record
stands before its end. -/
theorem message_safe (h₀ : ∀ x ∈ t₀, Quiet x.request) (h : (writeBody s.message >>= fun _ => (do
      match ← (commit : Dialogue Request Answer _) with
      | .error detail => return { recipients, disposition := .withheld detail }
      | .ok _ => conclude recipients : Conversation SmtpResult)).run.Runs t r) :
    Safe (t₀ ++ t) r := by
  have hbody : ∀ a : Answer (.body (dotStuff s.message)),
      ∀ x ∈ t₀ ++ [(⟨.body (dotStuff s.message), a⟩ : Step)], x.request ≠ .terminator ∧
        ∀ bytes, x.request = .body bytes → Request.terminator.wire ∉ byteLines bytes := by
    intro a x hx
    rcases List.mem_append.mp hx with hx | hx
    · have hq := h₀ x hx
      refine ⟨hq.ne_terminator, ?_⟩
      intro bytes e
      rw [e] at hq
      exact absurd hq id
    · rw [List.mem_singleton.mp hx]
      refine ⟨by simp, ?_⟩
      intro bytes e
      injection e with e
      rw [← e]
      exact terminator_notMem_dotStuff s.message
  rcases runs_bind_except.mp h with ⟨e, hw, rfl⟩ | ⟨t₁, u, t₂, rfl, hw, hrest⟩
  · obtain ⟨a, ha, -⟩ := attempt_runs hw
    obtain rfl := runs_request.mp ha
    exact safe_of_unended (fun x hx => (hbody a x hx).1) (fun x hx => (hbody a x hx).2) (by simp) (by simp)
  obtain ⟨a, ha, -⟩ := attempt_runs hw
  obtain rfl := runs_request.mp ha
  obtain ⟨t₃, answer, t₄, rfl, hcommit, hend⟩ := runs_lift_bind.mp hrest
  obtain rfl := runs_request.mp hcommit
  rw [← List.append_assoc, ← List.append_assoc]
  have hrecord : ∀ x ∈ t₀ ++ [(⟨.body (dotStuff s.message), a⟩ : Step)] ++
      [(⟨.commit, answer⟩ : Step)], x.request ≠ .terminator ∧ ∀ bytes, x.request = .body bytes →
        Request.terminator.wire ∉ byteLines bytes := by
    intro x hx
    rcases List.mem_append.mp hx with hx | hx
    · exact hbody a x hx
    · rw [List.mem_singleton.mp hx]
      exact ⟨by simp, by simp⟩
  cases answer with
  | error detail =>
    obtain ⟨rfl, rfl⟩ := runs_pure_except.mp hend
    rw [List.append_nil]
    exact safe_of_unended (fun x hx => (hrecord x hx).1) (fun x hx => (hrecord x hx).2) (by simp) (by simp)
  | ok recorded =>
    obtain ⟨result, hconclude, rfl⟩ := runs_lift.mp hend
    obtain ⟨b, after, rfl, hafter, hconcluded⟩ := conclude_runs hconclude
    exact safe_of_ended (fun x hx => (hrecord x hx).1) (fun x hx => (hrecord x hx).2)
      (List.mem_append_right _ List.mem_cons_self) hafter hconcluded

theorem transfer_safe (h₀ : ∀ x ∈ t₀, Quiet x.request) (h : (transfer s recipients).run.Runs t r) : Safe (t₀ ++ t) r := by
  rcases command_runs h with ⟨e, rfl, hc⟩ | ⟨code, text, t₁, t', rfl, hc, hrest⟩
  · refine safe_of_quiet ?_ (by simp) (by simp)
    intro x hx
    rcases List.mem_append.mp hx with hx | hx
    · exact h₀ x hx
    · rcases hc.only x hx with e | e <;> rw [e] <;> trivial
  have hquiet : ∀ x ∈ t₀ ++ t₁, Quiet x.request := by
    intro x hx
    rcases List.mem_append.mp hx with hx | hx
    · exact h₀ x hx
    · rcases hc.only x hx with e | e <;> rw [e] <;> trivial
  by_cases hdata : code = 354
  · simp only [hdata, if_true] at hrest
    rw [← List.append_assoc]
    exact message_safe hquiet hrest
  · simp only [hdata, if_false] at hrest
    obtain ⟨rfl, rfl⟩ := runs_pure_except.mp hrest
    rw [List.append_nil]
    refine safe_of_quiet hquiet ?_ ?_
    · intro recipients' e
      injection e with e
      injection e with _ e
      exact classify_ne_delivered code text e
    · intro recipients' text' e
      injection e with e
      injection e with _ e
      refine ⟨.line .data, code, ?_, hdata, classify_permanent e⟩
      rw [replies_append, hc.replies]
      simp

theorem refusedForGood_of_not_deferred {tail : List Step}
    {answers before : List (Request × Nat)} (h : Answered tail recipients answers)
    (hnone : recipients.any Recipient.accepted = false)
    (hreplies : replies .readLine t = before ++ answers)
    (hsome : ∃ p ∈ answers, isTransient p.2 = false) : RefusedForGood t := by
  obtain ⟨⟨q, code⟩, hp, hcode⟩ := hsome
  obtain ⟨address, rfl⟩ := h.rcpt _ hp
  have hfalse : isSuccess code = false := by
    have hmem : isSuccess code ∈ recipients.map Recipient.accepted := by
      rw [h.accepted]
      exact List.mem_map.mpr ⟨_, hp, rfl⟩
    obtain ⟨recipient, hr, he⟩ := List.mem_map.mp hmem
    rw [← he]
    simpa using List.any_eq_false.mp hnone recipient hr
  refine ⟨.line (.rcptTo address), code, ?_, hfalse, hcode⟩
  rw [hreplies]
  exact List.mem_append_right _ hp

theorem not_transient_of_success (h : isSuccess code = true) : isTransient code = false := by
  simp only [isSuccess, isTransient, Bool.and_eq_true, decide_eq_true_eq,
    Bool.and_eq_false_iff, decide_eq_false_iff_not] at *
  omega

theorem envelope_deferred_iff (h : (envelope s).run.Runs t (.ok (.ok recipients)))
    (hnone : recipients.any Recipient.accepted = false) :
    RefusedForGood t ↔ ¬∀ p ∈ replies .readLine t, ∀ address, p.1 = .line (.rcptTo address) → isTransient p.2 = true := by
  obtain ⟨opening, mail, tail, answers, hmail, hopening, hanswered, hreplies⟩ := envelope_accepted h
  constructor
  · intro ⟨q, code, hp, hrefuses, hcode⟩ hall
    rw [hreplies] at hp
    rcases List.mem_append.mp hp with hp | hp
    · -- the opening has no request that could be refused
      have := hopening _ hp
      unfold Opening at this
      unfold Refuses at hrefuses
      split at this <;> simp_all
    rcases List.mem_cons.mp hp with he | hp
    · cases he
      rw [show isSuccess mail = false from hrefuses] at hmail
      cases hmail
    · obtain ⟨address, he⟩ := hanswered.rcpt _ hp
      have htransient := hall (q, code) (by rw [hreplies]; simp [hp]) address he
      rw [hcode] at htransient
      cases htransient
  · intro hnot
    rw [hreplies] at hnot
    rw [List.append_cons] at hreplies
    refine refusedForGood_of_not_deferred hanswered hnone hreplies ?_
    by_contra hdeferred
    apply hnot
    intro p hp address he
    by_contra hcode
    apply hdeferred
    rcases List.mem_append.mp hp with hp | hp
    · have := hopening p hp
      rw [he] at this
      exact absurd this id
    rcases List.mem_cons.mp hp with rfl | hp
    · cases he
    · exact ⟨p, hp, by simpa using hcode⟩

theorem envelope_not_deferred (h : (envelope s).run.Runs t (.ok (.ok recipients)))
    (hsome : recipients.any Recipient.accepted = true) :
    ¬∀ p ∈ replies .readLine t, ∀ address, p.1 = .line (.rcptTo address) → isTransient p.2 = true := by
  intro hall
  obtain ⟨opening, mail, tail, answers, -, -, hanswered, hreplies⟩ := envelope_accepted h
  obtain ⟨recipient, hr, haccepted⟩ := List.any_eq_true.mp hsome
  have hmem : true ∈ answers.map fun p => isSuccess p.2 := by
    rw [← hanswered.accepted, ← haccepted]
    exact List.mem_map_of_mem hr
  obtain ⟨p, hp, hcode⟩ := List.mem_map.mp hmem
  obtain ⟨address, he⟩ := hanswered.rcpt p hp
  have htransient := hall p (by rw [hreplies]; simp [hp]) address he
  rw [not_transient_of_success hcode] at htransient
  cases htransient

theorem unaccepted_safe_iff {a : Answer (.line .quit)} (ht : ∀ x ∈ t, Quiet x.request) :
    Safe (t ++ [⟨.line .quit, a⟩]) (.ok ⟨recipients, .rejectedPermanent text⟩) ↔ RefusedForGood t := by
  have hreplies : replies .readLine (t ++ [⟨.line .quit, a⟩]) = replies .readLine t := by
    rw [replies_append]
    exact List.append_nil _
  have hrefused : RefusedForGood (t ++ [⟨.line .quit, a⟩]) ↔ RefusedForGood t := by
    unfold RefusedForGood
    rw [hreplies]
  rw [← hrefused]
  constructor
  · intro h
    exact h.refused recipients text rfl
  · intro h
    refine safe_of_quiet ?_ (by simp) (fun _ _ _ => h)
    intro x hx
    rcases List.mem_append.mp hx with hx | hx
    · exact ht x hx
    · rw [List.mem_singleton.mp hx]
      trivial

/-- A submission keeps its promises, whatever the server, the network and the record do, unless the
server defers every recipient. -/
theorem converse_safe_iff (peer : Peer Request Answer) (s : Submission) :
    Safe (run peer [] (converse s).run).1 (run peer [] (converse s).run).2 ↔ ¬AllDeferred peer s := by
  have henv := runs_run peer (envelope s).run
  have hquiet := only_of_runs henv (envelope_only s)
  unfold AllDeferred
  rw [converse, ExceptT.run_bind, run_bind]
  generalize run peer [] (envelope s).run = out at *
  obtain ⟨t₀, r₀⟩ := out
  cases r₀ with
  | error e =>
    show Safe t₀ (.error e) ↔ _
    exact iff_of_true (safe_of_quiet hquiet (by simp) (by simp)) (by simp)
  | ok answered =>
    cases answered with
    | error result =>
      obtain ⟨code, text, hcode, rfl, hmem⟩ := envelope_refused henv
      show Safe t₀ (.ok ⟨[], classify code text⟩) ↔ _
      refine iff_of_true (safe_of_quiet hquiet ?_ ?_) (by simp)
      · intro recipients e
        injection e with e
        injection e with _ e
        exact classify_ne_delivered code text e
      · intro recipients text' e
        injection e with e
        injection e with _ e
        exact ⟨_, code, hmem, hcode, classify_permanent e⟩
    | ok recipients =>
      by_cases haccepted : recipients.any Recipient.accepted = true
      · simp only [haccepted, if_true]
        obtain ⟨t, ht, hr⟩ := runs_of_run peer t₀ (transfer s recipients).run
        rw [ht]
        refine iff_of_true (transfer_safe hquiet hr) ?_
        intro ⟨_, hall⟩
        exact envelope_not_deferred henv haccepted hall
      · simp only [haccepted, Bool.false_eq_true, if_false]
        have hnone : recipients.any Recipient.accepted = false := by simpa using haccepted
        obtain ⟨t, ht, hr⟩ := runs_of_run peer t₀ (do
          quit
          return { recipients, disposition := .rejectedPermanent "all recipients rejected" } :
            Conversation SmtpResult).run
        rw [ht]
        obtain ⟨t₁, u, t₂, rfl, hquit, hend⟩ := runs_lift_bind.mp hr
        obtain ⟨a, rfl⟩ := quit_runs hquit
        obtain ⟨rfl, hresult⟩ := runs_pure_except.mp hend
        rw [hresult, List.append_nil, unaccepted_safe_iff hquiet, envelope_deferred_iff henv hnone]
        simp

/-- A server that takes the sender and asks to try every recipient later. -/
def deferring : Peer Request Answer
  | past, .readLine =>
    match asked .readLine past with
    | .line (.rcptTo _) => .ok "451 4.3.2 try again later\r\n"
    | _ => .ok "250 OK\r\n"
  | _, .line _ | _, .body _ | _, .terminator | _, .commit => .ok ()

def oneRecipient : Submission where
  ehloDomain := "test.local"
  mailFrom := "alice@test.local"
  rcptTo := ["bob@test.local"]
  message := []
  auth := none

theorem deferred_given_up : ¬Safe (run deferring [] (converse oneRecipient).run).1
      (run deferring [] (converse oneRecipient).run).2 := by
  have hresult : (run deferring [] (converse oneRecipient).run).2 =
      .ok ⟨[⟨"bob@test.local", false, "4.3.2 try again later"⟩], .rejectedPermanent "all recipients rejected"⟩ := by rfl
  have hreplies : replies .readLine (run deferring [] (converse oneRecipient).run).1 =
      [(.line (.ehlo "test.local"), 250), (.line (.mailFrom "alice@test.local"), 250),
        (.line (.rcptTo "bob@test.local"), 451)] := by rfl
  intro h
  obtain ⟨q, code, hmem, hrefuses, hcode⟩ := h.refused _ _ hresult
  rw [hreplies] at hmem
  simp only [List.mem_cons, Prod.mk.injEq, List.not_mem_nil, or_false] at hmem
  rcases hmem with ⟨rfl, rfl⟩ | ⟨rfl, rfl⟩ | ⟨rfl, rfl⟩
  · exact hrefuses
  · cases hrefuses
  · cases hcode

end Smtp

end SyncEngine
