import SyncEngine.Mail.Stream

/-!
# A mailbox on an IMAP server

What the server holds of the selected mailbox and what it answers.  Two dates of a message come from its
`INTERNALDATE`: a search disregards the time and the zone, while the engine's message carries the instant.
-/

namespace SyncEngine
namespace Imap

open Mail

/-- An `INTERNALDATE`: a day, the second of it, and the minutes its zone is ahead of UTC. -/
structure InternalDate where
  day : CalendarDate
  secondOfDay : Nat
  zone : Int
deriving DecidableEq

def InternalDate.instant (date : InternalDate) : Option UtcDateTime :=
  let seconds : Int := date.day.days * 86400 + date.secondOfDay - date.zone * 60
  if seconds < 0 then none
  else
    if h : seconds.toNat * second < UtcDateTime.rangeNanos then some ⟨seconds.toNat * second, h⟩
    else none

/-- A message as the server holds it.  `plain` is whether its headers alone show one text body, and
`attachment` what its structure says of downloads, where the server has one to return. -/
structure ServerMessage (δ : Type) where
  uid : Nat
  flags : List String
  internalDate : InternalDate
  envelope : δ
  plain : Bool
  attachment : Option Bool
  modseq : Nat

/-- The mailbox.  A UID belongs to one message only, and an expunged one is not used again. -/
structure Server (δ : Type) where
  uidValidity : Nat
  uidNext : Nat
  messages : List (ServerMessage δ)
  highestModseq : Nat
  /-- Expunged UIDs, each with the mod-sequence of the expunge. -/
  vanished : List (Nat × Nat)
  /-- Whether a `SELECT` says the `UIDNEXT`. -/
  saysUidNext : Bool
  /-- Whether a `SELECT` says the `HIGHESTMODSEQ`, opened CONDSTORE-aware or not. -/
  saysModseq : Bool → Bool
  uids_nodup : (messages.map ServerMessage.uid).Nodup
  uid_pos : ∀ m ∈ messages, 0 < m.uid
  uid_lt : ∀ m ∈ messages, m.uid < uidNext
  uidNext_lt : uidNext < 2 ^ 32
  vanished_gone : ∀ v ∈ vanished, v.1 ∉ messages.map ServerMessage.uid

/-- What a session negotiated. -/
structure Negotiated where
  qresync : Bool
  /-- The server keeps a `HIGHESTMODSEQ` current without QRESYNC. -/
  xymHighestModseq : Bool
  messageLimit : Option Nat

/-- The UIDs one command may name, lowered to the server's message limit where it states one; zero is
no cap. -/
def Negotiated.withinMessageLimit (session : Negotiated) (requested : Nat) : Nat :=
  match session.messageLimit with
  | some limit => if 0 < limit ∧ (requested = 0 ∨ limit < requested) then limit else requested
  | none => requested

/-! ## Commands -/

/-- A member of a UID set: a range, in either order, or everything from a UID on. -/
inductive UidRange
  | span (a b : Nat)
  | onward (a : Nat)
deriving DecidableEq, Repr

abbrev UidSet := List UidRange

structure SelectData where
  uidValidity : Nat
  uidNext : Option Nat
  highestModseq : Option Nat
  total : Nat
deriving DecidableEq

/-- A `FETCH` row, with what was asked for. -/
structure FetchRow (δ : Type) where
  uid : Nat
  flags : List String
  internalDate : Option InternalDate
  envelope : Option δ
  hasAttachment : Option Bool
deriving DecidableEq

/-- What the engine stores of a message apart from its state. -/
structure Content (δ : Type) where
  envelope : Option δ
  hasAttachment : Bool
deriving DecidableEq

instance {δ : Type} [MailContent δ] : MailContent (Content δ) where
  addresses content := (content.envelope.map MailContent.addresses).getD []
  refs content := (content.envelope.map MailContent.refs).getD []

/-- What a pass asks for: commands of the server, and the commit of a chunk. -/
inductive Request (δ : Type)
  | select (condstore : Bool)
  | highestUid
  | searchSince (floor : CalendarDate)
  | fetch (set : UidSet)
  | fetchState (set : UidSet)
  | fetchStructure (set : UidSet)
  | changedSince (set : UidSet) (modseq : Nat)
  | commit (chunk : EmailChunk (Content δ))

def Request.Answer {δ : Type} : Request δ → Type
  | .select _ => SelectData
  | .highestUid => List Nat
  | .searchSince _ => List Nat
  | .fetch _ | .fetchState _ | .fetchStructure _ => List (FetchRow δ)
  | .changedSince _ _ => List (FetchRow δ) × List Nat
  | .commit _ => Unit

def Request.chunk? {δ : Type} : Request δ → Option (EmailChunk (Content δ))
  | .commit chunk => some chunk
  | _ => none

namespace ServerMessage

variable {δ : Type}

/-- The row of the list-level metadata.  Headers that show one text body rule an attachment out. -/
def metadata (m : ServerMessage δ) : FetchRow δ where
  uid := m.uid
  flags := m.flags
  internalDate := some m.internalDate
  envelope := some m.envelope
  hasAttachment := if m.plain then some false else none

def state (m : ServerMessage δ) : FetchRow δ := ⟨m.uid, m.flags, none, none, none⟩

def bodyStructure (m : ServerMessage δ) : FetchRow δ := ⟨m.uid, [], none, none, m.attachment⟩

end ServerMessage

namespace Server

variable {δ : Type}

/-- The highest UID of the mailbox, which `*` stands for. -/
def highest (server : Server δ) : Nat := (server.messages.map ServerMessage.uid).foldr max 0

def inRange (server : Server δ) (uid : Nat) : UidRange → Bool
  | .span a b => min a b ≤ uid && uid ≤ max a b
  | .onward a => min a server.highest ≤ uid && uid ≤ max a server.highest

def named (server : Server δ) (set : UidSet) : List (ServerMessage δ) :=
  server.messages.filter fun m => set.any (server.inRange m.uid)

def since (server : Server δ) (floor : CalendarDate) : List Nat :=
  (server.messages.filter fun m => floor.days ≤ m.internalDate.day.days).map ServerMessage.uid

def answer (server : Server δ) : (request : Request δ) → request.Answer
  | .select condstore =>
    { uidValidity := server.uidValidity
      uidNext := if server.saysUidNext then some server.uidNext else none
      highestModseq := if server.saysModseq condstore then some server.highestModseq else none
      total := server.messages.length }
  | .highestUid => if server.messages = [] then [] else [server.highest]
  | .searchSince floor => server.since floor
  | .fetch set => (server.named set).map ServerMessage.metadata
  | .fetchState set => (server.named set).map ServerMessage.state
  | .fetchStructure set => (server.named set).map ServerMessage.bodyStructure
  | .changedSince set modseq =>
    (((server.named set).filter fun m => modseq < m.modseq).map ServerMessage.state,
      ((server.vanished.filter fun v => modseq < v.2 && set.any (server.inRange v.1)).map Prod.fst))
  | .commit _ => ()

end Server

end Imap
end SyncEngine
