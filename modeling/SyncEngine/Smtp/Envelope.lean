import SyncEngine.Smtp.Conversation

/-!
# The envelope

What a run of the conversation has done once the envelope is behind it: it has written command lines
and read replies, and the replies to `MAIL` and `RCPT` are the ones its result was made from.
-/

namespace SyncEngine
namespace Smtp

open Dialogue

/-- The requests of a session before its envelope. -/
def Opening : Request → Prop
  | .readLine => True
  | .line (.ehlo _) | .line (.helo _) | .line (.auth _ _) | .line (.cancel _) => True
  | _ => False

/-- The requests that carry nothing of the message: lines written and read. -/
def Quiet : Request → Prop
  | .readLine | .line _ => True
  | _ => False

variable {q : Request}

theorem Opening.quiet (h : Opening q) : Quiet q := by
  cases q with
  | readLine | line => trivial
  | _ => exact h

/-! ## What each part can ask -/

section

variable {P : Request → Prop} {α : Type}

theorem readReplyFrom_only (hread : P .readLine) (n : Nat) (lines : List String) :
    (readReplyFrom n lines).run.Only P := by
  induction n generalizing lines with
  | zero => exact only_throw _
  | succ n ih =>
    refine only_bind_except (only_lift (only_request hread)) fun answer => ?_
    cases answer with
    | error detail => exact only_throw _
    | ok line =>
      by_cases hline : line = ""
      · simp only [hline, if_true]
        exact only_throw _
      simp only [hline, if_false]
      cases readReplyLine line with
      | error e => exact only_throw e
      | ok reply =>
        by_cases hmore : reply.more = true
        · simp only [hmore, if_true]
          exact ih _
        · simp only [hmore]
          exact only_pure _

theorem readReply_only (hread : P .readLine) : readReply.run.Only P :=
  only_bind_except (readReplyFrom_only hread _ _) fun _ => only_pure _

theorem attempt_only {write : Dialogue Request Answer (Except String Unit)} (h : write.Only P) :
    (attempt write).run.Only P := by
  refine only_bind_except (only_lift h) fun answer => ?_
  cases answer with
  | error detail => exact only_throw _
  | ok u => exact only_pure _

theorem writeLine_only {c : Command} (h : P (.line c)) : (writeLine c).run.Only P := attempt_only (only_request h)

end

variable {P : Request → Prop}

theorem rejectControl_only (field value : String) : (rejectControl field value).run.Only P := by
  unfold rejectControl
  split
  · exact only_throw _
  · exact only_pure _

variable (addresses : List String)

theorem rejectControls_only : (rejectControls addresses).run.Only P := by
  induction addresses with
  | nil => exact only_pure _
  | cons address rest ih => exact only_bind_except (rejectControl_only _ _) fun _ => ih

theorem ehlo_only (domain : String) : (ehlo domain).run.Only Opening := by
  refine only_bind_except (rejectControl_only _ _) fun _ => ?_
  refine only_bind_except (writeLine_only trivial) fun _ => ?_
  refine only_bind_except (readReplyFrom_only trivial _ _) fun reply => ?_
  refine only_ite (only_pure _) ?_
  refine only_bind_except (writeLine_only trivial) fun _ => ?_
  refine only_bind_except (readReplyFrom_only trivial _ _) fun reply => ?_
  exact only_ite (only_pure _) (only_throw _)

theorem finish_only (mechanism : Mechanism) : (finish mechanism).run.Only Opening := by
  refine only_bind_except (readReply_only trivial) fun reply => ?_
  refine only_ite (only_pure _) (only_ite (only_throw _) ?_)
  refine only_bind_except (writeLine_only trivial) fun _ => ?_
  exact only_bind_except (readReply_only trivial) fun _ => only_throw _

theorem authenticate_only (auth : SmtpAuth) (extensions : List String) :
    (authenticate auth extensions).run.Only Opening := by
  unfold authenticate
  cases auth.credentials with
  | password username password =>
    refine only_bind_except (writeLine_only trivial) fun _ => ?_
    refine only_bind_except (readReply_only trivial) fun reply => ?_
    exact only_ite (only_throw _) (only_pure _)
  | oauth2 username accessToken =>
    dsimp only
    cases Mechanism.select (advertisedMechanisms extensions) with
    | none => exact only_throw _
    | some mechanism =>
      refine only_bind_except (only_pure _) fun _ => ?_
      exact only_bind_except (writeLine_only trivial) fun _ => finish_only mechanism

variable (s : Submission)

theorem login_only (esmtp : Bool) (extensions : List String) : (login s esmtp extensions).run.Only Opening := by
  unfold login
  cases s.auth with
  | none => exact only_pure _
  | some auth =>
    cases esmtp with
    | false => exact only_throw _
    | true => exact authenticate_only auth extensions

theorem greet_only : (greet s).run.Only Opening := by
  refine only_bind_except (rejectControl_only _ _) fun _ => ?_
  refine only_bind_except (rejectControls_only _) fun _ => ?_
  exact only_bind_except (ehlo_only _) fun _ => login_only s _ _

/-! ## The replies of a command -/

theorem answering_property {x : Step} (hx : P x.request) (hq : P q) : P (answering q x) := by
  obtain ⟨r, a⟩ := x
  cases r with
  | readLine | commit => exact hq
  | line | body | terminator => exact hx

variable {t : List Step}

theorem replies_property (ht : ∀ x ∈ t, P x.request) (hq : P q) : ∀ p ∈ replies q t, P p.1 := by
  induction t generalizing q with
  | nil => simp [replies]
  | cons x t ih =>
    have hx : P x.request := ht x List.mem_cons_self
    have hrest : ∀ y ∈ t, P y.request := fun y hy => ht y (List.mem_cons_of_mem x hy)
    intro p hp
    cases hc : closes x with
    | none =>
      simp only [replies, hc] at hp
      exact ih hrest (answering_property hx hq) p hp
    | some code =>
      simp only [replies, hc, List.mem_cons] at hp
      rcases hp with rfl | hp
      · exact hq
      · exact ih hrest hq p hp

/-- A command and what was read of its reply. -/
structure Commanded (c : Command) (t : List Step) (code : Option Nat) : Prop where
  only : ∀ x ∈ t, x.request = .line c ∨ x.request = .readLine
  replies : ∀ q, replies q t = (code.map (Request.line c, ·)).toList

variable {c : Command}

theorem Commanded.of_reads {a : Answer (.line c)}
    {code : Option Nat} (h : Reads t code) : Commanded c (⟨.line c, a⟩ :: t) code where
  only := by
    intro x hx
    rcases List.mem_cons.mp hx with rfl | hx
    · exact .inl rfl
    · exact .inr (h.only x hx)
  replies := fun q => h.replies (.line c)

/-- A command that is written and answered goes on with its code; otherwise the conversation ends
there, with no reply to it. -/
theorem command_runs {β : Type} {k : Nat × String → Conversation β}
    {r : Except ImapError β} (h : (writeLine c >>= fun _ => readReply >>= k).run.Runs t r) :
    (∃ e, r = .error e ∧ Commanded c t none) ∨ ∃ code text t₁ t₂, t = t₁ ++ t₂ ∧ Commanded c t₁ (some code) ∧
        (k (code, text)).run.Runs t₂ r := by
  rcases runs_bind_except.mp h with ⟨e, hw, rfl⟩ | ⟨t₀, u, t', rfl, hw, hrest⟩
  · obtain ⟨a, ha, -⟩ := attempt_runs hw
    obtain rfl := runs_request.mp ha
    exact .inl ⟨e, rfl, .of_reads reads_nil⟩
  obtain ⟨a, ha, -⟩ := attempt_runs hw
  obtain rfl := runs_request.mp ha
  rcases runs_bind_except.mp hrest with ⟨e, hr, rfl⟩ | ⟨t₁, ⟨code, text⟩, t₂, rfl, hr, hk⟩
  · exact .inl ⟨e, rfl, .of_reads (readReply_reads hr)⟩
  · exact .inr ⟨code, text, _ :: t₁, t₂, rfl, .of_reads (readReply_reads hr), hk⟩

/-! ## The recipients -/

/-- The replies to a list of recipients, in whatever state they were read. -/
structure Answered (t : List Step) (recipients : List Recipient) (answers : List (Request × Nat)) :
    Prop where
  replies : ∀ q, replies q t = answers
  rcpt : ∀ p ∈ answers, ∃ address, p.1 = .line (.rcptTo address)
  accepted : recipients.map Recipient.accepted = answers.map fun p => isSuccess p.2

theorem rcptAll_only : (rcptAll addresses).run.Only Quiet := by
  induction addresses with
  | nil => exact only_pure _
  | cons address rest ih =>
    refine only_bind_except (writeLine_only trivial) fun _ => ?_
    refine only_bind_except (readReply_only trivial) fun _ => ?_
    exact only_bind_except ih fun _ => only_pure _

variable {recipients : List Recipient}

theorem rcptAll_answered {addresses : List String}
    (h : (rcptAll addresses).run.Runs t (.ok recipients)) : ∃ answers, Answered t recipients answers := by
  induction addresses generalizing t recipients with
  | nil =>
    obtain ⟨rfl, hr⟩ := runs_pure_except.mp h
    cases hr
    exact ⟨[], fun _ => rfl, by simp, rfl⟩
  | cons address rest ih =>
    rcases command_runs h with ⟨e, he, -⟩ | ⟨code, text, t₁, t', rfl, hc, hrest⟩
    · cases he
    rcases runs_bind_except.mp hrest with ⟨e, -, he⟩ | ⟨t₂, others, t₃, rfl, hall, hend⟩
    · cases he
    obtain ⟨rfl, hr⟩ := runs_pure_except.mp hend
    cases hr
    obtain ⟨answers, ha⟩ := ih hall
    refine ⟨(.line (.rcptTo address), code) :: answers, ?_, ?_, ?_⟩
    · intro q
      rw [List.append_nil, replies_append, hc.replies, ha.replies]
      rfl
    · intro p hp
      rcases List.mem_cons.mp hp with rfl | hp
      · exact ⟨address, rfl⟩
      · exact ha.rcpt p hp
    · rw [List.map_cons, List.map_cons, ha.accepted]

/-! ## The whole envelope -/

theorem envelope_only : (envelope s).run.Only Quiet := by
  refine only_bind_except ((greet_only s).mono fun _ => Opening.quiet) fun _ => ?_
  refine only_bind_except (writeLine_only trivial) fun _ => ?_
  refine only_bind_except (readReply_only trivial) fun _ => ?_
  refine only_ite ?_ (only_pure _)
  exact only_bind_except (rcptAll_only _) fun _ => only_pure _

theorem envelope_refused {s : Submission} {result : SmtpResult} (h : (envelope s).run.Runs t (.ok (.error result))) :
    ∃ code text, isSuccess code = false ∧ result = ⟨[], classify code text⟩ ∧
      (Request.line (.mailFrom s.mailFrom), code) ∈ replies .readLine t := by
  rcases runs_bind_except.mp h with ⟨e, -, he⟩ | ⟨t₀, u, t', rfl, hgreet, hrest⟩
  · cases he
  rcases command_runs hrest with ⟨e, he, -⟩ | ⟨code, text, t₁, t₂, rfl, hc, hmail⟩
  · cases he
  by_cases hcode : isSuccess code = true
  · simp only [hcode, if_true] at hmail
    rcases runs_bind_except.mp hmail with ⟨e, -, he⟩ | ⟨t₃, others, t₄, rfl, hall, hend⟩
    · cases he
    · obtain ⟨-, hr⟩ := runs_pure_except.mp hend
      cases hr
  · simp only [hcode] at hmail
    obtain ⟨rfl, hr⟩ := runs_pure_except.mp hmail
    cases hr
    refine ⟨code, text, by simpa using hcode, rfl, ?_⟩
    rw [replies_append, replies_append, hc.replies]
    simp

theorem envelope_accepted {s : Submission} (h : (envelope s).run.Runs t (.ok (.ok recipients))) :
    ∃ opening code tail answers, isSuccess code = true ∧ (∀ p ∈ opening, Opening p.1) ∧ Answered tail recipients answers ∧
      replies .readLine t = opening ++ (.line (.mailFrom s.mailFrom), code) :: answers := by
  rcases runs_bind_except.mp h with ⟨e, -, he⟩ | ⟨t₀, u, t', rfl, hgreet, hrest⟩
  · cases he
  rcases command_runs hrest with ⟨e, he, -⟩ | ⟨code, text, t₁, t₂, rfl, hc, hmail⟩
  · cases he
  by_cases hcode : isSuccess code = true
  · simp only [hcode, if_true] at hmail
    rcases runs_bind_except.mp hmail with ⟨e, -, he⟩ | ⟨tail, others, t₄, rfl, hall, hend⟩
    · cases he
    obtain ⟨rfl, hr⟩ := runs_pure_except.mp hend
    cases hr
    obtain ⟨answers, ha⟩ := rcptAll_answered hall
    refine ⟨replies .readLine t₀, code, tail, answers, hcode, ?_, ha, ?_⟩
    · exact replies_property (only_of_runs hgreet (greet_only s)) trivial
    · rw [List.append_nil, replies_append, replies_append, hc.replies, ha.replies]
      rfl
  · simp only [hcode] at hmail
    obtain ⟨rfl, hr⟩ := runs_pure_except.mp hmail
    cases hr

end Smtp

end SyncEngine
