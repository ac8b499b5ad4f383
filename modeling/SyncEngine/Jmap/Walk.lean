import Mathlib
import SyncEngine.Library.Ending
import SyncEngine.Library.Lists
import SyncEngine.Scope.Store

/-!
# A pass over the members of a type

A snapshot walks `Foo/query` page by page, each page anchored at the last id of the one before, and closes with a
listing of the ids.  A delta pages `Foo/changes`.  A pass asks one request after another, and says after each answer
whether it asks again or is over.
-/

namespace SyncEngine
namespace Jmap

/-! ## Errors -/

inductive JmapError
  | method (errorType : String)
  | unsettled (typeName : String)
  | protocol (detail : String)
  | other (failure : FailureClass)
deriving DecidableEq

def methodClass (errorType : String) : FailureClass :=
  if errorType = "cannotCalculateChanges" then .needsResync
  else if errorType = "rateLimit" ∨ errorType = "overQuota" then .rateLimited
  else if errorType = "serverUnavailable" ∨ errorType = "serverFail" ∨ errorType = "serverPartialFail" then .retryable
  else if errorType = "stateMismatch" then .conflict
  else .permanent

def JmapError.isUnsettled : JmapError → Bool
  | .unsettled _ => true
  | _ => false

def JmapError.failureClass : JmapError → FailureClass
  | .method errorType => methodClass errorType
  | .unsettled _ => .retryable
  | .protocol _ => .permanent
  | .other failure => failure

def cannotCalculateChanges : JmapError := .method "cannotCalculateChanges"

/-! ## Answers -/

/-- An object of a `/get`: its id, and what normalizing it comes to. -/
structure Object (T : Type) where
  id : Option ProviderKey
  normalized : Except JmapError T

/-- A `/get` result as far as the answer has one. -/
structure Got (T : Type) where
  state : Option SyncState
  list : Option (List (Object T))

/-- A `/query` result, and the `/get` of its ids. -/
structure QueryPage (T : Type) where
  ids : Except JmapError (List ProviderKey)
  position : Option Nat
  limit : Option Nat
  total : Option Nat
  queryState : Option String
  got : Option (Got T)

structure Changes where
  created : List ProviderKey
  updated : List ProviderKey
  destroyed : List ProviderKey
  newState : SyncState
  hasMore : Bool

/-- A `/changes` result, and the two `/get`s of what it names. -/
structure ChangesAnswer (T : Type) where
  changes : Except JmapError Changes
  created : Except JmapError (List T)
  updated : Except JmapError (List T)

inductive Answer (T : Type)
  | page (p : QueryPage T)
  | objects (list : Except JmapError (List T))
  | changes (c : ChangesAnswer T)
  | failed (e : JmapError)

def missingResponse : JmapError := .other .permanent

/-! ## The walk -/

/-- Whether an update can change an object's place in the query's order. -/
inductive Order
  | fixed
  | server
deriving DecidableEq

/-- Pages in a row that may bring nothing new, beyond those a step back re-reads. -/
def idlePages : Nat := 3

def listings : Nat := 3

def listingPage : Nat := 5000

/-- Times a walk starts again from the top. -/
def restartsAllowed : Nat := 1

/-- One walk over a whole query. -/
structure Walk where
  typeName : String
  order : Order
  limit : Nat
  /-- The page size the server last answered with. -/
  served : Nat
  withObjects : Bool
  cursor : Option SyncState
  queryState : Option String
  steady : Bool
  /-- Every id the pages returned, in order. -/
  trail : List ProviderKey
  seen : Finset ProviderKey
  total : Option Nat
  pages : Nat
  done : Bool
  idle : Nat
  /-- Pages a step back is expected to re-read. -/
  reread : Nat
  restarts : Nat

structure WalkPage (T : Type) where
  changed : List T
  present : List ProviderKey
  total : Option Nat

def farBack (len : Nat) : Nat → Nat → List Nat
  | 0, _ => []
  | fuel + 1, back => if back < len then back :: farBack len fuel (back * 2) else []

def anchors (len : Nat) : List Nat :=
  (List.range (min len 4) ++ farBack len len 8 ++ (if 4 < len then [len - 1] else [])).destutter (· ≠ ·)

namespace Walk

def new (typeName : String) (order : Order) (limit : Nat) (withObjects : Bool) : Walk where
  typeName
  order
  limit := max limit 1
  served := max limit 1
  withObjects
  cursor := none
  queryState := none
  steady := true
  trail := []
  seen := ∅
  total := none
  pages := 0
  done := false
  idle := 0
  reread := 0
  restarts := 0

def unsettled (w : Walk) : JmapError := .unsettled w.typeName

/-- What a page's objects come to: the state read with them, and those of the ids wanted. -/
def readObjects {T : Type} (w : Walk) (wanted : List ProviderKey) : Option (Got T) →
    Except JmapError (Option SyncState × List T)
  | none => if w.withObjects then .error missingResponse else .ok (w.cursor, [])
  | some got => do
    let cursor ← match w.cursor, got.state with
      | some cursor, _ => Except.ok cursor
      | none, some state => Except.ok state
      | none, none => Except.error (.protocol "missing state cursor")
    match got.list with
    | none => Except.error (.protocol "/get result has no list")
    | some list => do
      let kept := list.filter fun object => object.id.any (wanted.contains ·)
      let changed ← kept.mapM Object.normalized
      return (some cursor, changed)

/-- Whether the query's end is reached; `usize` wraps around. -/
def atEnd (ids : List ProviderKey) (pageLimit : Nat) (total position : Option Nat) : Bool :=
  ids.isEmpty ||
    match total, position with
    | some total, some position => decide (total ≤ (position + ids.length) % 2 ^ 64)
    | _, _ => decide (ids.length < pageLimit)

/-- What a page changes, before it is counted as idle or not. -/
def extended {T : Type} (w : Walk) (p : QueryPage T) (ids : List ProviderKey) (cursor : Option SyncState) : Walk :=
  let pageLimit := p.limit.getD w.limit
  let total := p.total <|> w.total
  { w with
    served := max pageLimit 1
    queryState := if w.pages = 0 then p.queryState else w.queryState
    steady := if w.pages = 0 then w.steady else w.steady && p.queryState = w.queryState
    pages := w.pages + 1
    total
    done := atEnd ids pageLimit total p.position
    trail := w.trail ++ ids
    cursor }

/-- A page is taken: the ids the walk had not seen, and their objects. -/
def absorb {T : Type} (w : Walk) (p : QueryPage T) : Except JmapError (Walk × WalkPage T) := do
  let ids ← p.ids
  let fresh := ids.filter fun id => id ∉ w.seen
  let (cursor, changed) ← w.readObjects fresh (if w.withObjects then p.got else none)
  let w' := w.extended p ids cursor
  let page := ⟨changed, fresh, w'.total⟩
  if fresh = [] ∧ w'.done = false then
    if w.reread + idlePages < w.idle + 1 then throw w.unsettled
    return ({ w' with idle := w.idle + 1 }, page)
  return ({ w' with idle := 0, reread := 0, seen := w.seen ∪ fresh.toFinset }, page)

end Walk

/-! ## One page, request by request -/

/-- Where a page is anchored: at the top, or this far back, with the places to try after it. -/
inductive Anchor
  | top
  | back (n : Nat) (more : List Nat)

structure Asking where
  walk : Walk
  anchor : Anchor

/-- The next anchor to try, or from the top again, once. -/
def stepBack (w : Walk) : List Nat → Except JmapError Asking
  | n :: more => .ok ⟨w, .back n more⟩
  | [] =>
    if restartsAllowed ≤ w.restarts then .error w.unsettled
    else .ok ⟨{ w with restarts := w.restarts + 1, reread := w.reread + (w.trail.length / w.served + 1) }, .top⟩

def fetchPage (w : Walk) : Except JmapError Asking :=
  if w.trail = [] then .ok ⟨w, .top⟩ else stepBack w (anchors w.trail.length)

/-- What a step back is expected to re-read. -/
def Anchor.rereads (served : Nat) : Anchor → Nat
  | .top => 0
  | .back n _ => n / served

/-- The answer to a request of a walk: the next request of the same page, or the page. -/
def Asking.receive {T : Type} (a : Asking) : Answer T → Except JmapError (Asking ⊕ (Walk × WalkPage T))
  | .page p => ({ a.walk with reread := a.walk.reread + a.anchor.rereads a.walk.served }.absorb p).map .inr
  | .failed e =>
    match a.anchor with
    | .back _ more =>
      if e = .method "anchorNotFound" then (stepBack a.walk more).map .inl else .error e
    | .top => .error e
  | _ => .error missingResponse

/-! ## The pass -/

structure MemberFetch where
  typeName : String
  order : Order
  limit : Nat

/-- What a pass waits for. -/
inductive Step
  | delta (first : Bool) (since : SyncState)
  | walking (a : Asking)
  /-- The ids are listed, and may be listed `more` times again. -/
  | listing (walk : Walk) (more : Nat) (a : Asking)
  | getting (walk : Walk) (chunk : List ProviderKey) (more : List (List ProviderKey))

/-- A pass asks again, or it is over and has a cursor to go on from or an error. -/
abbrev Next : Type := Step ⊕ Except JmapError SyncState

namespace Walk

def finish (w : Walk) : Next :=
  match w.cursor with
  | some cursor => .inr (.ok cursor)
  | none => .inr (.error (.protocol "a snapshot walk recorded no state"))

def list (w : Walk) : Nat → Next
  | 0 => .inr (.error w.unsettled)
  | more + 1 => .inl (.listing w more ⟨new w.typeName w.order (max listingPage w.limit) false, .top⟩)

def get (w : Walk) : List (List ProviderKey) → Next
  | [] => w.finish
  | chunk :: more => .inl (.getting w chunk more)

def settle (w : Walk) : Next := if w.pages ≤ 1 then w.finish else w.list listings

def listed (w : Walk) (more : Nat) : Except JmapError Walk → Next
  | .error e => if e.isUnsettled ∧ w.order = .server then w.list more else .inr (.error e)
  | .ok listing =>
    if w.order = .server ∧ listing.steady = false then w.list more
    else w.get (chunks w.limit ((listing.seen \ w.seen).sort (· ≤ ·)))

end Walk

namespace MemberFetch

variable {T : Type}

def walk (f : MemberFetch) : Next := .inl (.walking ⟨Walk.new f.typeName f.order f.limit true, .top⟩)

def start (f : MemberFetch) : Option SyncState → Next
  | none => f.walk
  | some since => .inl (.delta true since)

/-- One page of changes; one that claims more without moving its state cannot be gone on from. -/
def deltaPage (since : SyncState) : Answer T → Except JmapError Changes
  | .changes c => do
    let diff ← c.changes
    if diff.hasMore ∧ diff.newState = since then throw cannotCalculateChanges
    let _ ← c.created
    let _ ← c.updated
    return diff
  | .failed e => .error e
  | _ => .error missingResponse

def next (f : MemberFetch) : Step → Answer T → Next
  | .delta first since, answer =>
    match deltaPage since answer with
    | .ok diff => if diff.hasMore then .inl (.delta false diff.newState) else .inr (.ok diff.newState)
    | .error e =>
      if e.failureClass = .needsResync then
        if first then f.walk else .inr (.ok since)
      else .inr (.error e)
  | .walking a, answer =>
    match a.receive answer with
    | .error e => .inr (.error e)
    | .ok (.inl a) => .inl (.walking a)
    | .ok (.inr (w, _)) =>
      if w.done then w.settle
      else
        match fetchPage w with
        | .error e => .inr (.error e)
        | .ok a => .inl (.walking a)
  | .listing w more a, answer =>
    match a.receive answer with
    | .error e => w.listed more (.error e)
    | .ok (.inl a) => .inl (.listing w more a)
    | .ok (.inr (l, _)) =>
      if l.done then w.listed more (.ok l)
      else
        match fetchPage l with
        | .error e => w.listed more (.error e)
        | .ok a => .inl (.listing w more a)
  | .getting w _ more, answer =>
    match answer with
    | .objects (.ok _) => w.get more
    | .objects (.error e) => .inr (.error e)
    | .failed e => .inr (.error e)
    | _ => .inr (.error missingResponse)

end MemberFetch

/-- A delta paged until the server has no more: the state it asks from, and what it makes of an answer. -/
def pagedDelta {T : Type} (since : SyncState) : Answer T → SyncState ⊕ Except JmapError SyncState
  | .changes c =>
    match c.changes, c.created, c.updated with
    | .error e, _, _ => .inr (.error e)
    | .ok _, .error e, _ => .inr (.error e)
    | .ok _, .ok _, .error e => .inr (.error e)
    | .ok diff, .ok _, .ok _ =>
      if diff.hasMore ∧ diff.newState = since then .inr (.error cannotCalculateChanges)
      else if diff.hasMore then .inl diff.newState
      else .inr (.ok diff.newState)
  | .failed e => .inr (.error e)
  | _ => .inr (.error missingResponse)

end Jmap
end SyncEngine
