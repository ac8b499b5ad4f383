import SyncEngine.Library.Concurrent
import SyncEngine.Library.Lists
import SyncEngine.Smtp.Auth

/-!
# The pool of an account's IMAP connections

One budget for an account: a semaphore whose permits stand for connections, a shelf of connections at rest, the ceiling
in force, and the counters of borrowed workers and of watches.  A task is where it stands in the code, and it moves by
the code's atomic steps; between two of them every other task may move.  What the code leaves to the outside, the event
says.

A waiting caller here takes any free permit, and one that awaits a worker's return goes on at any moment, so the code
has fewer runs.
-/

namespace SyncEngine
namespace Pool

/-! ## Errors -/

inductive ImapError where
  | io (detail : String)
  | auth (detail : String)
  | rateLimited (detail : String)
  | credential (detail : String)
  | no (detail : String)
  | bad (detail : String)
  | protocol (detail : String)
  | bye (detail : String)
  deriving DecidableEq, Repr

def opensWithCode (detail code : String) : Bool :=
  match detail.toList with
  | '[' :: rest =>
    decide (']' ∈ rest) && Smtp.eqIgnoreAsciiCase (rest.takeWhile (· ≠ ']')) code.toList
  | _ => false

def opensWithTemporaryCode (detail : String) : Bool :=
  ["UNAVAILABLE", "INUSE", "SERVERBUG"].any fun code => opensWithCode detail code

def refusesSessions : ImapError → Bool
  | .auth _ | .rateLimited _ | .bye _ => true
  | .no detail => opensWithTemporaryCode detail
  | _ => false

/-! ## The pool -/

/-- A connection, with the generation it was dialled in and the mailbox it has open. -/
structure Conn where
  generation : Nat
  selected : Option String
  deriving DecidableEq, Repr

def minWorkerConnections : Nat := 1

structure ImapPool where
  permits : Nat
  parked : List Conn
  watches : Nat
  maxConnections : Nat
  ceiling : Nat
  workers : Nat
  validateAfter : Nat
  generation : Nat
  deriving DecidableEq, Repr

namespace ImapPool

def new (maxConnections validateAfter : Nat) : ImapPool where
  permits := max maxConnections minWorkerConnections
  parked := []
  watches := 0
  maxConnections := max maxConnections minWorkerConnections
  ceiling := max maxConnections minWorkerConnections
  workers := 0
  validateAfter := validateAfter
  generation := 0

/-- The connection an account's connect opened goes to the shelf. -/
def adopt (p : ImapPool) (selected : Option String) : ImapPool :=
  { p with parked := p.parked ++ [⟨p.generation, selected⟩] }

/-- The last resting connection with the mailbox open. -/
def rposition (parked : List Conn) (mailbox : String) : Option Nat :=
  (List.range parked.length).reverse.find? fun i =>
    (parked[i]?).any fun c => c.selected = some mailbox

def takeParked (p : ImapPool) (generation : Nat) (mailbox : Option String) :
    Option Conn × ImapPool :=
  let parked := p.parked.filter fun c => generation ≤ c.generation
  match mailbox.bind (rposition parked) with
  | some i => (parked[i]?, { p with parked := parked.eraseIdx i })
  | none => (parked.getLast?, { p with parked := parked.dropLast })

/-- The connection must answer before it is handed out.  `elapsed` is what the clock says of its rest,
nothing where the clock went backwards. -/
def needsCheck (p : ImapPool) (elapsed : Option Nat) (always : Bool) : Bool :=
  always || elapsed.elim true fun rested => p.validateAfter ≤ rested

end ImapPool

/-! ## Taking a connection -/

structure Want where
  mailbox : Option String
  alwaysCheck : Bool
  deriving DecidableEq, Repr

/-- The steps of a task.  `go` is the next step of the code where the outside has no say; `look` is the
step to the shelf, with what the clock says of the rest of the connection found there. -/
inductive Act where
  | go
  | look (elapsed : Option Nat)
  | answered (alive : Bool)
  | dialled (result : Except ImapError Unit)
  | abort
  | work (selected : Option String)
  | finish (discard : Bool)
  | spare (mailbox : String)
  | helper (j : Nat) (a : Act)

/-- A caller with a permit on its way through `take_or_dial`. -/
inductive Attempt where
  | start
  | looking (generation : Nat)
  | checking (generation : Nat) (c : Conn)
  | dialling (generation : Nat)
  | taken (c : Conn)
  | failed (err : ImapError)
  deriving DecidableEq, Repr

/-- The attempt is at an await, where its future may be dropped. -/
def Attempt.awaits : Attempt → Bool
  | .checking _ _ | .dialling _ => true
  | _ => false

def Attempt.step (p : ImapPool) (w : Want) : Attempt → Act → Option (ImapPool × Attempt)
  | .start, .go => some (p, .looking p.generation)
  | .looking generation, .look elapsed =>
    match p.takeParked generation w.mailbox with
    | (some c, p') =>
      some (p', if p.needsCheck elapsed w.alwaysCheck then .checking generation c else .taken c)
    -- the socket is on its way from here on, for nothing rests
    | (none, p') => some (p', .dialling generation)
  | .checking generation c, .answered alive =>
    some (p, if alive then .taken c else .looking generation)
  | .dialling generation, .dialled (.ok _) => some (p, .taken ⟨generation, none⟩)
  | .dialling _, .dialled (.error err) => some (p, .failed err)
  | _, _ => none

/-! ## Tasks -/

/-- A call of `try_acquire_for` by a caller that has a worker. -/
inductive Helper where
  | attempting (w : Want) (a : Attempt)
  | lowering
  | forgotten
  deriving DecidableEq, Repr

inductive Task where
  -- `acquire_worker`
  | waiting (w : Want)
  | attempting (w : Want) (a : Attempt)
  | yielding (w : Want)
  | lowering (w : Want)
  | forgotten (w : Want)
  | awaiting (w : Want)
  -- a worker's guard, with the calls for more workers its holder has under way
  | guard (c : Conn) (helpers : List Helper)
  -- its drop
  | returning (c : Option Conn)
  | parking (c : Conn)
  | uncounting
  -- a permit about to be dropped
  | releasing
  -- `reserve_watch`, and the watch
  | reserving
  | counted
  | leased (a : Attempt)
  | watching (c : Conn)
  | unwatching
  -- `invalidate`
  | invalidating
  | clearing
  | restoring
  | adding (lowered : Nat)
  | ended
  deriving DecidableEq, Repr

/-- One step of a spare call: the pool, the call if it goes on, and the task that goes on beside it. -/
def Helper.step (p : ImapPool) : Helper → Act → Option (ImapPool × Option Helper × List Task)
  | .attempting _ (.taken c), .go =>
    some ({ p with workers := p.workers + 1 }, none, [.guard c []])
  | .attempting _ (.failed err), .go =>
    some (if refusesSessions err then (p, some .lowering, []) else (p, none, [.releasing]))
  | .attempting _ a, .abort => if a.awaits then some (p, none, [.releasing]) else none
  | .attempting w a, act => (a.step p w act).map fun (p', a') => (p', some (.attempting w a'), [])
  | .lowering, .go => some (p, some .forgotten, [])
  | .forgotten, .go => some ({ p with ceiling := p.ceiling - 1 }, none, [])
  | _, _ => none

/-- The calls of a guard's holder after one of them moved. -/
def replaced (helpers : List Helper) (j : Nat) : Option Helper → List Helper
  | some h => helpers.set j h
  | none => helpers.eraseIdx j

def Task.step (p : ImapPool) : Task → Act → Option (ImapPool × Task × List Task)
  | .waiting w, .go =>
    if 0 < p.permits then some ({ p with permits := p.permits - 1 }, .attempting w .start, [])
    else none
  | .waiting _, .abort => some (p, .ended, [])
  | .attempting _ (.taken c), .go =>
    some ({ p with workers := p.workers + 1 }, .guard c [], [])
  | .attempting w (.failed err), .go =>
    -- with no worker to wait for the error is the caller's
    if p.workers = 0 then some (p, .releasing, [])
    else if refusesSessions err then some (p, .lowering w, [])
    else some (p, .yielding w, [])
  | .attempting _ a, .abort => if a.awaits then some (p, .releasing, []) else none
  | .attempting w a, act => (a.step p w act).map fun (p', a') => (p', .attempting w a', [])
  | .yielding w, .go => some ({ p with permits := p.permits + 1 }, .awaiting w, [])
  | .lowering w, .go => some (p, .forgotten w, [])
  | .forgotten w, .go => some ({ p with ceiling := p.ceiling - 1 }, .awaiting w, [])
  | .awaiting w, .go => some (p, .waiting w, [])
  | .awaiting _, .abort => some (p, .ended, [])
  | .guard c helpers, .work selected => some (p, .guard { c with selected := selected } helpers, [])
  | .guard c helpers, .spare mailbox =>
    if 0 < p.permits then
      some ({ p with permits := p.permits - 1 },
        .guard c (helpers ++ [.attempting ⟨some mailbox, false⟩ .start]), [])
    else none
  | .guard c helpers, .helper j act =>
    (helpers[j]?).bind fun h => (h.step p act).map fun (p', h', new) =>
      (p', .guard c (replaced helpers j h'), new)
  -- the calls under way are futures of the guard's holder, dropped before the guard or with it
  | .guard c [], .finish discard => some (p, .returning (if discard then none else some c), [])
  | .returning none, .go => some (p, .uncounting, [])
  | .returning (some c), .go =>
    some (p, if c.generation < p.generation then .uncounting else .parking c, [])
  | .parking c, .go => some ({ p with parked := p.parked ++ [c] }, .uncounting, [])
  | .uncounting, .go => some ({ p with workers := p.workers - 1 }, .releasing, [])
  | .releasing, .go => some ({ p with permits := p.permits + 1 }, .ended, [])
  -- what stands under the lock is one step: a ceiling that falls between its load and the count falls
  -- as well after the count, which nobody reads in between
  | .reserving, .go =>
    if p.ceiling ≤ p.watches + minWorkerConnections then some (p, .ended, [])
    else some ({ p with watches := p.watches + 1 }, .counted, [])
  | .counted, .go =>
    if 0 < p.permits then some ({ p with permits := p.permits - 1 }, .leased .start, []) else none
  | .counted, .abort => some (p, .ended, [])
  | .leased (.taken c), .go => some (p, .watching c, [])
  | .leased (.failed _), .go => some (p, .unwatching, [])
  | .leased a, .abort => if a.awaits then some (p, .unwatching, []) else none
  | .leased a, act => (a.step p ⟨none, false⟩ act).map fun (p', a') => (p', .leased a', [])
  | .watching c, .work selected => some (p, .watching { c with selected := selected }, [])
  | .watching _, .finish _ => some (p, .unwatching, [])
  | .unwatching, .go => some ({ p with watches := p.watches - 1 }, .releasing, [])
  | .invalidating, .go => some ({ p with generation := p.generation + 1 }, .clearing, [])
  | .clearing, .go => some ({ p with parked := [] }, .restoring, [])
  | .restoring, .go =>
    some ({ p with ceiling := p.maxConnections }, .adding (p.maxConnections - p.ceiling), [])
  | .adding lowered, .go => some ({ p with permits := p.permits + lowered }, .ended, [])
  | _, _ => none

/-! ## The system -/

structure System where
  pool : ImapPool
  tasks : List Task
  deriving DecidableEq, Repr

inductive Call where
  | acquire (w : Want)
  | reserveWatch
  | invalidate
  deriving DecidableEq, Repr

def Call.task : Call → Task
  | .acquire w => .waiting w
  | .reserveWatch => .reserving
  | .invalidate => .invalidating

inductive Event where
  | call (c : Call)
  | act (i : Nat) (a : Act)

def System.step (s : System) : Event → Option System
  | .call c => some { s with tasks := s.tasks ++ [c.task] }
  | .act i a =>
    (s.tasks[i]?).bind fun t => (t.step s.pool a).map fun (pool, t', new) =>
      ⟨pool, s.tasks.set i t' ++ new⟩

/-- An account's pool before the first caller: empty, or with the connection its connect opened. -/
def System.start (maxConnections validateAfter : Nat) (adopted : Option (Option String)) : System where
  pool := adopted.elim (.new maxConnections validateAfter)
    (ImapPool.new maxConnections validateAfter).adopt
  tasks := []

abbrev System.Steps (s : System) (e : Event) (s' : System) : Prop := s.step e = some s'

/-!
## The ledger of a pool

The ledger has the counters of the pool and, for each kind of thing, how many the tasks hold of it: permits, the permits
they do not mean to forget, permits forgotten before the ceiling came down, permits restored to the ceiling and not yet
to the semaphore, guards, sockets, and the slots and leases of watches.  Every step is one of a few moves of the ledger,
and what the pool promises is proved of the moves.
-/

inductive Kind where
  | permit
  | steady
  | forgotten
  | promised
  | guard
  | socket
  | slot
  | lease
  deriving DecidableEq, Repr

structure Ledger where
  free : Nat
  ceiling : Nat
  maximum : Nat
  workers : Nat
  watches : Nat
  shelf : Nat
  held : Kind → Nat

/-- Everything of the first list was given for everything of the second. -/
def Trades (n n' : Kind → Nat) (lost gained : List Kind) : Prop :=
  ∀ k, n' k + lost.count k = n k + gained.count k

inductive Entry where
  | shelve
  | dial
  | take
  | lease
  | give
  | doom
  | forget
  | lower
  | hire
  | dismiss
  | restore
  | refill
  | reserve
  | vacate
  | abandon
  deriving DecidableEq, Repr

namespace Ledger

inductive Move : Entry → Ledger → Ledger → Prop
  /-- Sockets close or change between a task and the shelf. -/
  | shelve {l : Ledger} {shelf : Nat} {n : Kind → Nat} (hn : ∀ k, k ≠ .socket → n k = l.held k)
      (hle : shelf + n .socket ≤ l.shelf + l.held .socket) :
      Move .shelve l { l with shelf := shelf, held := n }
  /-- A socket is opened.  Nothing rests, and all sockets have a permit of their own. -/
  | dial {l : Ledger} {n : Kind → Nat} (hn : ∀ k, k ≠ .socket → n k = l.held k)
      (hle : n .socket ≤ n .permit) : Move .dial l { l with shelf := 0, held := n }
  | take {l : Ledger} {n : Kind → Nat} (hfree : 0 < l.free) (hn : Trades l.held n [] [.permit, .steady]) :
      Move .take l { l with free := l.free - 1, held := n }
  | lease {l : Ledger} {n : Kind → Nat} (hfree : 0 < l.free)
      (hn : Trades l.held n [] [.permit, .steady, .lease]) :
      Move .lease l { l with free := l.free - 1, held := n }
  | give {l : Ledger} {n : Kind → Nat} (hn : Trades l.held n [.permit, .steady] []) :
      Move .give l { l with free := l.free + 1, held := n }
  /-- A permit is to be forgotten.  There is a worker, and the permit is not a worker's. -/
  | doom {l : Ledger} {n : Kind → Nat} (hworker : 0 < l.workers ∨ 0 < l.held .guard)
      (hspare : l.held .guard < l.held .steady) (hn : Trades l.held n [.steady] []) :
      Move .doom l { l with held := n }
  | forget {l : Ledger} {n : Kind → Nat} (hn : Trades l.held n [.permit] [.forgotten]) :
      Move .forget l { l with held := n }
  | lower {l : Ledger} {n : Kind → Nat} (hn : Trades l.held n [.forgotten] []) :
      Move .lower l { l with ceiling := l.ceiling - 1, held := n }
  | hire {l : Ledger} {n : Kind → Nat} (hn : Trades l.held n [] [.guard]) :
      Move .hire l { l with workers := l.workers + 1, held := n }
  | dismiss {l : Ledger} {n : Kind → Nat} (hn : Trades l.held n [.guard] []) :
      Move .dismiss l { l with workers := l.workers - 1, held := n }
  | restore {l : Ledger} {n : Kind → Nat}
      (hn : Trades l.held n [] (List.replicate (l.maximum - l.ceiling) .promised)) :
      Move .restore l { l with ceiling := l.maximum, held := n }
  | refill {l : Ledger} {n : Kind → Nat} {lowered : Nat}
      (hn : Trades l.held n (List.replicate lowered .promised) []) :
      Move .refill l { l with free := l.free + lowered, held := n }
  | reserve {l : Ledger} {n : Kind → Nat} (hfloor : l.watches + 1 < l.ceiling)
      (hn : Trades l.held n [] [.slot]) :
      Move .reserve l { l with watches := l.watches + 1, held := n }
  | vacate {l : Ledger} {n : Kind → Nat} (hn : Trades l.held n [.slot, .lease] []) :
      Move .vacate l { l with watches := l.watches - 1, held := n }
  /-- A slot is lost: its holder is gone and nobody took it off the count. -/
  | abandon {l : Ledger} {n : Kind → Nat} (hn : Trades l.held n [.slot] []) :
      Move .abandon l { l with held := n }

end Ledger

/-! ## What a task holds -/

def Attempt.holds : Attempt → List Kind
  | .checking _ _ | .dialling _ | .taken _ => [.socket]
  | .start | .looking _ | .failed _ => []

def Helper.holds : Helper → List Kind
  | .attempting _ a => [.permit, .steady] ++ a.holds
  | .lowering => [.permit]
  | .forgotten => [.forgotten]

/-- A lease counts until its drop has returned the slot, a guard until its drop has uncounted it. -/
def Task.holds : Task → List Kind
  | .attempting _ a => [.permit, .steady] ++ a.holds
  | .yielding _ | .releasing => [.permit, .steady]
  | .lowering _ => [.permit]
  | .forgotten _ => [.forgotten]
  | .guard _ helpers => [.permit, .steady, .guard, .socket] ++ helpers.flatMap Helper.holds
  | .returning c => [.permit, .steady, .guard] ++ c.elim [] fun _ => [.socket]
  | .parking _ => [.permit, .steady, .guard, .socket]
  | .uncounting => [.permit, .steady, .guard]
  | .counted => [.slot]
  | .leased a => [.permit, .steady, .slot, .lease] ++ a.holds
  | .watching _ => [.permit, .steady, .slot, .lease, .socket]
  | .unwatching => [.permit, .steady, .slot, .lease]
  | .adding lowered => List.replicate lowered .promised
  | .waiting _ | .awaiting _ | .reserving | .invalidating | .clearing | .restoring | .ended => []

def ImapPool.ledger (p : ImapPool) (n : Kind → Nat) : Ledger where
  free := p.permits
  ceiling := p.ceiling
  maximum := p.maxConnections
  workers := p.workers
  watches := p.watches
  shelf := p.parked.length
  held := n

def System.held (s : System) (k : Kind) : Nat := tally Task.holds k s.tasks

def System.ledger (s : System) : Ledger := s.pool.ledger s.held

/-! ## The steps of an attempt -/

theorem Attempt.count_holds (a : Attempt) {k : Kind} (h : k ≠ .socket) : a.holds.count k = 0 := by
  have hne : (Kind.socket == k) = false := by simpa using fun he => h he.symm
  cases a <;> simp [Attempt.holds, List.count_cons, hne]

theorem Attempt.count_socket_le (a : Attempt) : a.holds.count .socket ≤ 1 := by
  cases a <;> simp [Attempt.holds]

theorem ImapPool.rposition_lt {parked : List Conn} {mailbox : String} {i : Nat}
    (h : ImapPool.rposition parked mailbox = some i) : i < parked.length := by
  have hmem := List.mem_of_find?_eq_some h
  simpa using hmem

theorem ImapPool.takeParked_spec {p p' : ImapPool} {generation : Nat} {mailbox : Option String}
    {r : Option Conn} (h : p.takeParked generation mailbox = (r, p')) :
    p' = { p with parked := p'.parked } ∧
      (r = none → p'.parked = []) ∧ (r ≠ none → p'.parked.length + 1 ≤ p.parked.length) := by
  have hkept : (p.parked.filter fun c => decide (generation ≤ c.generation)).length ≤ p.parked.length :=
    List.length_filter_le _ _
  unfold takeParked at h
  generalize p.parked.filter (fun c => decide (generation ≤ c.generation)) = kept at h hkept
  dsimp only at h
  split at h
  case h_1 i hi =>
    obtain ⟨mailbox, -, hpos⟩ := Option.bind_eq_some_iff.mp hi
    have hlt := rposition_lt hpos
    cases h
    refine ⟨rfl, fun hnone => ?_, fun _ => ?_⟩
    · rw [List.getElem?_eq_none_iff] at hnone
      omega
    · show (kept.eraseIdx i).length + 1 ≤ _
      rw [List.length_eraseIdx_of_lt hlt]
      omega
  case h_2 =>
    cases h
    refine ⟨rfl, fun hnone => ?_, fun hsome => ?_⟩
    · rw [List.getLast?_eq_none_iff] at hnone
      show kept.dropLast = []
      rw [hnone]
      rfl
    · have hne : kept ≠ [] := fun hnil => hsome (by simp [hnil])
      have hpos := List.length_pos_iff.mpr hne
      show kept.dropLast.length + 1 ≤ _
      rw [List.length_dropLast]
      omega

/-- An attempt changes the shelf alone, and it adds to the open sockets only where nothing rests. -/
theorem Attempt.step_spec {p p' : ImapPool} {w : Want} {a a' : Attempt} {act : Act} (h : a.step p w act = some (p', a')) :
    p' = { p with parked := p'.parked } ∧
      (p'.parked.length + a'.holds.count .socket ≤ p.parked.length + a.holds.count .socket ∨ p'.parked.length = 0) := by
  revert h
  fun_cases Attempt.step p w a act with
  | case1 =>
    intro h
    cases h
    exact ⟨rfl, .inl (Nat.le_refl _)⟩
  | case2 generation elapsed c q hq =>
    intro h
    obtain ⟨hpool, -, hlen⟩ := ImapPool.takeParked_spec hq
    have hlen := hlen (by simp)
    cases h
    refine ⟨hpool, .inl ?_⟩
    have hone := Attempt.count_socket_le (if p.needsCheck elapsed w.alwaysCheck then .checking generation c else .taken c)
    have hnone : (Attempt.looking generation).holds.count .socket = 0 := rfl
    omega
  | case3 generation elapsed q hq =>
    intro h
    obtain ⟨hpool, hnil, -⟩ := ImapPool.takeParked_spec hq
    cases h
    exact ⟨hpool, .inr (by rw [hnil rfl]; rfl)⟩
  | case4 generation c alive =>
    intro h
    cases h
    refine ⟨rfl, .inl ?_⟩
    cases alive <;> simp [Attempt.holds]
  | case5 =>
    intro h
    cases h
    exact ⟨rfl, .inl (Nat.le_refl _)⟩
  | case6 =>
    intro h
    cases h
    exact ⟨rfl, .inl (by simp [Attempt.holds])⟩
  | case7 =>
    intro h
    cases h

end Pool
end SyncEngine
