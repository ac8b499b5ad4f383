import SyncEngine.Smtp.Auth

/-!
# The SMTP conversation

`EHLO`, `AUTH` where there is a credential, `MAIL`, one `RCPT` for each recipient, `DATA`, the
message, the record of the hand-over, and the line that ends the message.  A server delivers nothing
it has not seen the end of, so that line is the point of no return.
-/

namespace SyncEngine
namespace Smtp

structure Recipient where
  address : String
  accepted : Bool
  response : String
  deriving DecidableEq, Repr

inductive Disposition where
  | delivered
  | rejectedPermanent (text : String)
  | rejectedTransient (text : String)
  | ambiguous (text : String)
  | withheld (text : String)
  deriving DecidableEq, Repr

structure SmtpResult where
  recipients : List Recipient
  disposition : Disposition
  deriving DecidableEq, Repr

structure Submission where
  ehloDomain : String
  mailFrom : String
  rcptTo : List String
  message : List UInt8
  auth : Option SmtpAuth

def isSuccess (code : Nat) : Bool := 200 ≤ code && code < 300

def isTransient (code : Nat) : Bool := 400 ≤ code && code < 500

/-- What a reply other than a `2xx` makes of the message. -/
def classify (code : Nat) (text : String) : Disposition :=
  if isTransient code then .rejectedTransient text else .rejectedPermanent text

def rejectControl (field value : String) : Conversation Unit :=
  if value.toList.any fun c => c = '\r' || c = '\n' || c = '\x00' then
    throw (.protocol s!"{field} contains a forbidden control character (CR, LF, or NUL)")
  else return ()

def rejectControls : List String → Conversation Unit
  | [] => return ()
  | address :: rest => do
    rejectControl "RCPT TO address" address
    rejectControls rest

/-- Whether the server speaks ESMTP, and the lines of its reply. -/
def ehlo (domain : String) : Conversation (Bool × List String) := do
  rejectControl "EHLO domain" domain
  writeLine (.ehlo domain)
  let (code, lines) ← readReplyLines
  if code = 250 then return (true, lines)
  else
    -- a server without ESMTP
    writeLine (.helo domain)
    let (code, lines) ← readReplyLines
    if code = 250 then return (false, lines)
    else throw (.protocol s!"EHLO/HELO refused: {code}")

def login (s : Submission) (esmtp : Bool) (extensions : List String) : Conversation Unit :=
  match s.auth with
  | none => return ()
  | some auth =>
    if esmtp then authenticate auth extensions
    else throw (.protocol "SMTP AUTH requires ESMTP (EHLO)")

/-- Everything before the envelope. -/
def greet (s : Submission) : Conversation Unit := do
  rejectControl "MAIL FROM address" s.mailFrom
  rejectControls s.rcptTo
  let (esmtp, extensions) ← ehlo s.ehloDomain
  login s esmtp extensions

def rcptAll : List String → Conversation (List Recipient)
  | [] => return []
  | address :: rest => do
    writeLine (.rcptTo address)
    let (code, text) ← readReply
    let recipients ← rcptAll rest
    return { address, accepted := isSuccess code, response := text } :: recipients

/-- The conversation up to the last recipient's reply: the recipients, or the result of a refused
`MAIL`. -/
def envelope (s : Submission) : Conversation (Except SmtpResult (List Recipient)) := do
  greet s
  writeLine (.mailFrom s.mailFrom)
  let (code, text) ← readReply
  if isSuccess code then return .ok (← rcptAll s.rcptTo)
  else return .error { recipients := [], disposition := classify code text }

/-- Leaves the session; whether the server hears of it does not matter. -/
def quit : Dialogue Request Answer Unit := do
  let _ ← (writeLine .quit).run
  return ()

/-- The reply to the whole message.  One that cannot be read leaves open whether it was delivered. -/
def acknowledgement : Dialogue Request Answer Disposition := do
  match ← readReplyLines.run with
  | .ok (code, lines) =>
    return if isSuccess code then .delivered else classify code (" ".intercalate lines)
  | .error _ => return .ambiguous "post-DATA acknowledgement unreadable"

/-- The end of the message, whose hand-over is recorded, and the server's reply to it. -/
def conclude (recipients : List Recipient) : Dialogue Request Answer SmtpResult := do
  match ← writeTerminator with
  | .error _ =>
    -- it may have reached the server in part or whole
    return { recipients, disposition := .ambiguous "the end of the message may not have been sent" }
  | .ok _ =>
    let disposition ← acknowledgement
    quit
    return { recipients, disposition }

def transfer (s : Submission) (recipients : List Recipient) : Conversation SmtpResult := do
  writeLine .data
  let (code, text) ← readReply
  if code = 354 then
    writeBody s.message
    match ← (commit : Dialogue Request Answer _) with
    | .error detail =>
      -- without `QUIT`, which in the message would be text
      return { recipients, disposition := .withheld detail }
    | .ok _ => conclude recipients
  else return { recipients, disposition := classify code text }

def converse (s : Submission) : Conversation SmtpResult := do
  match ← envelope s with
  | .error result => return result
  | .ok recipients =>
    if recipients.any Recipient.accepted then transfer s recipients
    else
      quit
      return { recipients, disposition := .rejectedPermanent "all recipients rejected" }

end Smtp

end SyncEngine
