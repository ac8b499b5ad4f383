import SyncEngine.Library.Base64
import SyncEngine.Smtp.Stream

/-!
# SMTP authentication

`AUTH PLAIN` for a password, `AUTH OAUTHBEARER` or `AUTH XOAUTH2` for an access token, in base64.
-/

namespace SyncEngine
namespace Smtp

/-! ## The mechanisms that carry a token -/

inductive Mechanism where
  | oauthBearer
  | xoauth2
  deriving DecidableEq, Repr

def supported : List Mechanism := [.oauthBearer, .xoauth2]

def maxChallengeDetail : Nat := 512

def eqIgnoreAsciiCase (a b : List Char) : Bool := a.map Char.toLower = b.map Char.toLower

/-- Rejects a value with a byte that would forge the response it goes into. -/
def clean (field value : String) : Except ImapError String :=
  if value.toUTF8.toList.any fun b => b = 0 || b = 1 || b = 13 || b = 10 then
    .error (.protocol
      s!"{field} contains a byte forbidden in a SASL response (NUL, SOH, CR, or LF)")
  else .ok value

namespace Mechanism

def atom : Mechanism → String
  | oauthBearer => "OAUTHBEARER"
  | xoauth2 => "XOAUTH2"

def initialResponse (m : Mechanism) (username accessToken host : String) (port : Option Nat) :
    Except ImapError String := do
  let username ← clean "username" username
  let accessToken ← clean "access token" accessToken
  let host ← clean "host" host
  let blob := match m with
    | oauthBearer =>
      let port := (port.map fun port => s!"port={port}\x01").getD ""
      s!"n,a={username},\x01host={host}\x01{port}auth=Bearer {accessToken}\x01\x01"
    | xoauth2 => s!"user={username}\x01auth=Bearer {accessToken}\x01\x01"
  return String.ofList (Base64.encode blob.toUTF8.toList)

def cancelResponse : Mechanism → String
  | oauthBearer => "AQ=="
  | xoauth2 => ""

def select (offered : List (List Char)) : Option Mechanism :=
  supported.find? fun m => offered.any fun name => eqIgnoreAsciiCase name m.atom.toList

end Mechanism

def isControl (c : Char) : Bool := c.toNat ≤ 0x1F || (0x7F ≤ c.toNat && c.toNat ≤ 0x9F)

def describeChallenge (challenge : String) : String :=
  let trimmed := trimText challenge
  if trimmed = "" then ""
  else
    let decoded := match Base64.decode trimmed.toList with
      | some (some bytes) => Utf8.lossy bytes
      | _ => trimmed.toList
    String.ofList (trimChars
      ((decoded.map fun c => if isControl c then ' ' else c).take maxChallengeDetail))

/-! ## The exchange -/

inductive Credentials where
  | password (username password : String)
  | oauth2 (username accessToken : String)
  deriving DecidableEq, Repr

structure SmtpAuth where
  credentials : Credentials
  host : String
  port : Option Nat
  deriving DecidableEq, Repr

/-- The mechanisms one line of the `EHLO` reply advertises, also in the older spelling that joins the
first of them to the keyword. -/
def lineMechanisms (line : String) : List (List Char) :=
  match splitWhiteSpace line.toList with
  | [] => []
  | keyword :: rest =>
    if eqIgnoreAsciiCase keyword "AUTH".toList then rest
    else
      match splitBytes keyword 5 with
      | none => []
      | some (start, first) =>
        if eqIgnoreAsciiCase start "AUTH=".toList then first :: rest else []

def advertisedMechanisms (extensions : List String) : List (List Char) :=
  extensions.flatMap lineMechanisms

def plainToken (username password : String) : String :=
  String.ofList (Base64.encode (0 :: username.toUTF8.toList ++ 0 :: password.toUTF8.toList))

/-- A `4xx` is no judgement of the credential, except `432`. -/
def refusal (code : Nat) (text : String) : ImapError :=
  let detail := s!"SMTP AUTH rejected: {code} {text}"
  if 400 ≤ code ∧ code < 500 ∧ code ≠ 432 then .rateLimited detail else .auth detail

/-- Reads the answer to a token; an error challenge is acknowledged first. -/
def finish (mechanism : Mechanism) : Conversation Unit := do
  let (code, text) ← readReply
  if code = 235 then return ()
  else if code ≠ 334 then throw (refusal code text)
  else
    let challenge := describeChallenge text
    writeLine (.cancel mechanism.cancelResponse)
    let (code, text) ← readReply
    throw (refusal code (if challenge = "" then text else s!"{text} ({challenge})"))

def authenticate (auth : SmtpAuth) (extensions : List String) : Conversation Unit :=
  match auth.credentials with
  | .password username password => do
    writeLine (.auth "PLAIN" (plainToken username password))
    let (code, text) ← readReply
    if code ≠ 235 then throw (refusal code text) else return ()
  | .oauth2 username accessToken =>
    let offered := advertisedMechanisms extensions
    match Mechanism.select offered with
    | none =>
      let names := if offered.isEmpty then "none"
        else " ".intercalate (offered.map String.ofList)
      throw (.auth s!"SMTP server advertises no OAuth SASL mechanism (it offers: {names})")
    | some mechanism => do
      let initial ← ExceptT.mk (pure
        (mechanism.initialResponse username accessToken auth.host auth.port))
      writeLine (.auth mechanism.atom initial)
      finish mechanism

end Smtp

end SyncEngine
