import SyncEngine.Library.Climb
import SyncEngine.Library.Lowercase
import SyncEngine.Library.Whitespace
import SyncEngine.Outbox.Op

/-!
# Planning a folder change

A queued folder change says where the user saw the folder.  The plan reads the server's list as it is now and
sends the change, refuses it, or finds that there is nothing left to do.
-/

namespace SyncEngine

namespace ProviderError

def conflict (detail : String) : ProviderError := ⟨.conflict, detail, false⟩

def invalidState (detail : String) : ProviderError := ⟨.invalidState, detail, false⟩

end ProviderError

namespace Outbox

abbrev MailboxId := String

inductive MailboxRole
  | inbox | archive | drafts | sent | trash | junk | all | flagged | important
  | other (role : String)
deriving DecidableEq

/-- A folder: its own name is one level, and `parent` is nothing at the top of the tree. -/
structure Mailbox where
  id : MailboxId
  name : List Char
  parent : Option MailboxId
  role : Option MailboxRole
deriving DecidableEq

structure MailboxPlace where
  name : List Char
  parent : Option MailboxId
deriving DecidableEq

def MailboxPlace.ofMailbox (mailbox : Mailbox) : MailboxPlace := ⟨mailbox.name, mailbox.parent⟩

inductive MailboxChange
  | create (name : List Char) (parent : Option MailboxId)
  | update (target : MailboxId) (seen : MailboxPlace) (name : List Char) (parent : Option MailboxId)
  | trash (target : MailboxId) (seen : MailboxPlace) (trash : MailboxId)
  | delete (target : MailboxId)

/-- A change to one folder, as an adapter performs it. -/
inductive MailboxEdit
  | create (name : List Char) (parent : Option MailboxId)
  | update (target : MailboxId) (name : List Char) (parent : Option MailboxId)
  | trash (target trash : MailboxId) (name : List Char)
  | delete (target : MailboxId)
deriving DecidableEq

inductive Plan
  | send (edit : MailboxEdit)
  | done (mailbox : Option MailboxId)
deriving DecidableEq

def find (current : List Mailbox) (id : MailboxId) : Option Mailbox := current.find? fun m => m.id = id

/-- The folder a folder is in, as the list has it. -/
def parentOf (current : List Mailbox) (id : MailboxId) : Option MailboxId := (find current id).bind Mailbox.parent

/-- Whether a folder is the other one or lies anywhere beneath it.  The walk is no longer than the list. -/
def within (current : List Mailbox) (folder ancestor : MailboxId) : Bool :=
  Climb.climbs (parentOf current) ancestor (current.length + 1) (some folder)

def siblingNamed (current : List Mailbox) (parent : Option MailboxId) (name : List Char)
    (except : Option MailboxId) : Option Mailbox :=
  current.find? fun m => m.parent = parent ∧ m.name = name ∧ some m.id ≠ except

section FreeName

variable (table : CaseTable) (current : List Mailbox) (parent : MailboxId) (name : List Char)

def taken (candidate : List Char) : Bool :=
  current.any fun m => m.parent = some parent ∧ table.toLowercase m.name = table.toLowercase candidate

/-- The name, or the name and the first number from 2 on, that no folder inside the parent has.  Nothing stands for
a panic. -/
def freeName : Option (List Char) :=
  if !taken table current parent name then some name
  else
    ((List.range' 2 (current.length + 1)).map fun n => name ++ ' ' :: decimal n).find? fun candidate =>
      !taken table current parent candidate

end FreeName

/-- The folder, if it is still where the user saw it and is not the Inbox. -/
def unchanged (folder : Option Mailbox) (seen : MailboxPlace) : Except ProviderError Mailbox :=
  match folder with
  | none => .error (.conflict "the folder is gone")
  | some folder =>
    if folder.role = some .inbox then .error (.invalidState "the Inbox cannot be changed")
    else if MailboxPlace.ofMailbox folder ≠ seen then .error (.conflict "the folder has changed since it was read")
    else .ok folder

def planCreate (current : List Mailbox) (name : List Char) (parent : Option MailboxId) :
    Except ProviderError Plan :=
  if parent.any fun p => (find current p).isNone then
    .error (.conflict "the folder to create it in is gone")
  else
    match siblingNamed current parent name none with
    | some existing => .ok (.done (some existing.id))
    | none => .ok (.send (.create name parent))

def planUpdate (current : List Mailbox) (target : MailboxId) (seen : MailboxPlace) (name : List Char)
    (parent : Option MailboxId) : Except ProviderError Plan := do
  let folder ← unchanged (find current target) seen
  if folder.name = name ∧ folder.parent = parent then return .done (some target)
  else if parent.any fun p => (find current p).isNone then
    throw (.conflict "the destination folder is gone")
  else if parent.any fun p => within current p target then
    throw (.conflict "a folder cannot move inside itself")
  else if (siblingNamed current parent name (some target)).isSome then
    throw (.conflict "the destination already holds a folder of that name")
  else return .send (.update target name parent)

def planTrash (table : CaseTable) (current : List Mailbox) (target : MailboxId) (seen : MailboxPlace)
    (trash : MailboxId) : Option (Except ProviderError Plan) :=
  match unchanged (find current target) seen with
  | .error e => some (.error e)
  | .ok folder =>
    if (find current trash).isNone then some (.error (.conflict "the Trash folder is gone"))
    else if target = trash ∨ within current trash target = true then
      some (.error (.invalidState "Trash cannot go in Trash"))
    else (freeName table current trash folder.name).map fun name => .ok (.send (.trash target trash name))

def planDelete (current : List Mailbox) (target : MailboxId) : Except ProviderError Plan :=
  match find current target with
  | none => .ok (.done none)
  | some folder =>
    if folder.role = some .inbox then .error (.invalidState "the Inbox cannot be removed")
    else .ok (.send (.delete target))

/-- What a change still means against the server's list.  Nothing stands for a panic. -/
def plan (table : CaseTable) (change : MailboxChange) (current : List Mailbox) :
    Option (Except ProviderError Plan) :=
  match change with
  | .create name parent => some (planCreate current name parent)
  | .update target seen name parent => some (planUpdate current target seen name parent)
  | .trash target seen trash => planTrash table current target seen trash
  | .delete target => some (planDelete current target)

end Outbox
end SyncEngine
