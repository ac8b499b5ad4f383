import SyncEngine.Pool.Moves

/-!
# The pool keeps its budget

Permits free and held are the ceiling, up to those forgotten before the ceiling came down and those restored to the
ceiling and not yet to the semaphore.  A socket is opened with nothing at rest, and then every open socket has a permit
of its own.  The ceiling never falls to nothing because a refused caller gives its permit up only beside a worker, whose
permit stays.
-/

namespace SyncEngine
namespace Pool

open Ledger (Move)

namespace Ledger

structure Budget (l : Ledger) : Prop where
  permits : l.free + l.held .permit + l.held .forgotten + l.held .promised = l.ceiling
  steady : 1 ≤ l.free + l.held .steady
  ceiling : l.ceiling ≤ l.maximum
  workers : l.workers = l.held .guard
  sockets : l.shelf + l.held .socket ≤ l.maximum

variable {l l' : Ledger} {lost gained : List Kind}

theorem Budget.of_trades (h : l.Budget) (hn : Trades l.held l'.held lost gained)
    (hpermits : l'.free + gained.count .permit + gained.count .forgotten + gained.count .promised + l.ceiling =
      l.free + lost.count .permit + lost.count .forgotten + lost.count .promised + l'.ceiling)
    (hsteady : 1 ≤ l'.free + l'.held .steady) (hceiling : l'.ceiling ≤ l'.maximum)
    (hworkers : l'.workers + lost.count .guard = l.workers + gained.count .guard)
    (hshelf : l'.shelf = l.shelf) (hmaximum : l'.maximum = l.maximum)
    (hsocket : gained.count .socket = 0) : l'.Budget where
  permits := by
    have h₁ := hn .permit
    have h₂ := hn .forgotten
    have h₃ := hn .promised
    have h₄ := h.permits
    omega
  steady := hsteady
  ceiling := hceiling
  workers := by
    have h₁ := hn .guard
    have h₂ := h.workers
    omega
  sockets := by
    have h₁ := hn .socket
    have h₂ := h.sockets
    omega

theorem Budget.of_trades_of_le (h : l.Budget) (hn : Trades l.held l'.held lost gained)
    (hpermits : l'.free + gained.count .permit + gained.count .forgotten + gained.count .promised + l.ceiling =
      l.free + lost.count .permit + lost.count .forgotten + lost.count .promised + l'.ceiling)
    (hsteady : l.free + lost.count .steady ≤ l'.free + gained.count .steady)
    (hceiling : l'.ceiling ≤ l'.maximum)
    (hworkers : l'.workers + lost.count .guard = l.workers + gained.count .guard)
    (hshelf : l'.shelf = l.shelf) (hmaximum : l'.maximum = l.maximum)
    (hsocket : gained.count .socket = 0) : l'.Budget := by
  have hkept : 1 ≤ l'.free + l'.held .steady := by
    have h₁ := hn .steady
    have h₂ := h.steady
    omega
  exact h.of_trades hn hpermits hkept hceiling hworkers hshelf hmaximum hsocket

variable {m : Entry}

theorem Move.maximum_eq (h : Move m l l') : l'.maximum = l.maximum := by
  cases h <;> rfl

theorem Budget.of_sockets {shelf : Nat} {n : Kind → Nat} (h : l.Budget)
    (hn : ∀ k, k ≠ .socket → n k = l.held k) (hle : shelf + n .socket ≤ l.maximum) :
    Budget { l with shelf := shelf, held := n } where
  permits := by
    show l.free + n .permit + n .forgotten + n .promised = l.ceiling
    rw [hn .permit (by decide), hn .forgotten (by decide), hn .promised (by decide)]
    exact h.permits
  steady := by
    show 1 ≤ l.free + n .steady
    rw [hn .steady (by decide)]
    exact h.steady
  ceiling := h.ceiling
  workers := by
    show l.workers = n .guard
    rw [hn .guard (by decide)]
    exact h.workers
  sockets := hle

theorem Move.budget (h : Move m l l') (hb : l.Budget) : l'.Budget := by
  have hceiling := hb.ceiling
  cases h with
  | @shelve _ shelf n hn hle => exact hb.of_sockets hn (Nat.le_trans hle hb.sockets)
  | @dial _ n hn hle =>
    -- nothing rests, and there are no more sockets than permits
    have hpermits := hb.permits
    have hpermit := hn .permit (by decide)
    exact hb.of_sockets hn (by omega)
  | @take _ n hfree hn =>
    refine hb.of_trades_of_le hn ?_ ?_ hceiling rfl rfl rfl rfl
    · show l.free - 1 + 1 + 0 + 0 + l.ceiling = l.free + 0 + 0 + 0 + l.ceiling
      omega
    · show l.free + 0 ≤ l.free - 1 + 1
      omega
  | @lease _ n hfree hn =>
    refine hb.of_trades_of_le hn ?_ ?_ hceiling rfl rfl rfl rfl
    · show l.free - 1 + 1 + 0 + 0 + l.ceiling = l.free + 0 + 0 + 0 + l.ceiling
      omega
    · show l.free + 0 ≤ l.free - 1 + 1
      omega
  | give hn => exact hb.of_trades_of_le hn rfl (Nat.le_refl _) hceiling rfl rfl rfl rfl
  | @doom _ n hworker hspare hn =>
    have hworkers := hb.workers
    have hloss : n .steady + 1 = l.held .steady := hn .steady
    refine hb.of_trades hn rfl ?_ hceiling rfl rfl rfl rfl
    show 1 ≤ l.free + n .steady
    omega
  | forget hn =>
    refine hb.of_trades_of_le hn ?_ (Nat.le_refl _) hceiling rfl rfl rfl rfl
    show l.free + 0 + 1 + 0 + l.ceiling = l.free + 1 + 0 + 0 + l.ceiling
    omega
  | @lower _ n hn =>
    have hloss : n .forgotten + 1 = l.held .forgotten := hn .forgotten
    have hpermits := hb.permits
    refine hb.of_trades_of_le hn ?_ (Nat.le_refl _) ?_ rfl rfl rfl rfl
    · show l.free + 0 + 0 + 0 + l.ceiling = l.free + 0 + 1 + 0 + (l.ceiling - 1)
      omega
    · show l.ceiling - 1 ≤ l.maximum
      omega
  | hire hn => exact hb.of_trades_of_le hn rfl (Nat.le_refl _) hceiling rfl rfl rfl rfl
  | @dismiss _ n hn =>
    have hloss : n .guard + 1 = l.held .guard := hn .guard
    have hworkers := hb.workers
    refine hb.of_trades_of_le hn rfl (Nat.le_refl _) hceiling ?_ rfl rfl rfl
    show l.workers - 1 + 1 = l.workers + 0
    omega
  | restore hn =>
    refine hb.of_trades_of_le hn ?_ ?_ (Nat.le_refl _) ?_ rfl rfl ?_
    · simp [List.count_replicate]
      omega
    · simp [List.count_replicate]
    · simp [List.count_replicate]
    · simp [List.count_replicate]
  | refill hn =>
    refine hb.of_trades_of_le hn ?_ ?_ hceiling ?_ rfl rfl rfl
    · simp [List.count_replicate]
    · simp [List.count_replicate]
    · simp [List.count_replicate]
  | reserve _ hn => exact hb.of_trades_of_le hn rfl (Nat.le_refl _) hceiling rfl rfl rfl rfl
  | vacate hn => exact hb.of_trades_of_le hn rfl (Nat.le_refl _) hceiling rfl rfl rfl rfl
  | abandon hn => exact hb.of_trades_of_le hn rfl (Nat.le_refl _) hceiling rfl rfl rfl rfl

end Ledger

/-! ## Every run -/

theorem Helper.count_steady_le (h : Helper) : h.holds.count .steady ≤ h.holds.count .permit := by
  cases h with
  | attempting w a => simp [Helper.holds, a.count_holds]
  | lowering => decide
  | forgotten => decide

theorem Task.count_steady_le (t : Task) : t.holds.count .steady ≤ t.holds.count .permit := by
  cases t with
  | attempting w a => simp [Task.holds, a.count_holds]
  | leased a => simp [Task.holds, a.count_holds]
  | guard c helpers =>
    have hle : tally Helper.holds .steady helpers ≤ tally Helper.holds .permit helpers :=
      tally_le Helper.count_steady_le helpers
    simp only [tally] at hle
    simp [Task.holds, hle]
  | returning c => cases c <;> simp [Task.holds]
  | adding lowered => simp [Task.holds, List.count_replicate]
  | _ => simp [Task.holds]

theorem budget_start (maxConnections validateAfter : Nat) (adopted : Option (Option String)) :
    (System.start maxConnections validateAfter adopted).ledger.Budget := by
  have hone : 1 ≤ max maxConnections 1 := Nat.le_max_right _ _
  cases adopted with
  | none => exact ⟨rfl, hone, Nat.le_refl _, rfl, Nat.zero_le _⟩
  | some selected => exact ⟨rfl, hone, Nat.le_refl _, rfl, hone⟩

/-- Of every pool, whatever its callers do and in whatever order: permits free and held are the ceiling, the
ceiling is at least one and at most the maximum, the worker counter is the number of guards, and no more
sockets are open than the maximum. -/
theorem budget_kept {maxConnections validateAfter : Nat} {adopted : Option (Option String)} {es : List Event}
    {s : System} (h : Run System.Steps (System.start maxConnections validateAfter adopted) es s) :
    s.pool.permits + s.held .permit + s.held .forgotten + s.held .promised = s.pool.ceiling ∧
      1 ≤ s.pool.ceiling ∧ s.pool.ceiling ≤ s.pool.maxConnections ∧
      s.pool.workers = s.held .guard ∧
      s.pool.parked.length + s.held .socket ≤ s.pool.maxConnections ∧
      s.pool.maxConnections = max maxConnections 1 := by
  have hinv : s.ledger.Budget ∧ s.ledger.maximum = max maxConnections 1 := by
    refine Run.preserves (I := fun s => s.ledger.Budget ∧ s.ledger.maximum = max maxConnections 1) ?_ h ?_
    · intro s e s' hi hstep
      obtain ⟨m, hmove, -, -⟩ := System.step_moves hstep
      exact ⟨hmove.budget hi.1, hmove.maximum_eq.trans hi.2⟩
    · exact ⟨budget_start _ _ _, by cases adopted <;> rfl⟩
  obtain ⟨hb, hmaximum⟩ := hinv
  have hpermits : s.pool.permits + s.held .permit + s.held .forgotten + s.held .promised = s.pool.ceiling := hb.permits
  have hsteady : 1 ≤ s.pool.permits + s.held .steady := hb.steady
  have hle : s.held .steady ≤ s.held .permit := tally_le Task.count_steady_le s.tasks
  exact ⟨hpermits, by omega, hb.ceiling, hb.workers, hb.sockets, hmaximum⟩

/-- With two connections allowed the second caller is refused beside the first, and the ceiling falls to one. -/
def Sample.refusal : List Event :=
  let dial (i : Nat) (r : Except ImapError Unit) : List Event :=
    [.act i .go, .act i .go, .act i (.look none), .act i (.dialled r), .act i .go]
  [.call (.acquire ⟨none, false⟩), .call (.acquire ⟨some "INBOX", false⟩)] ++
    dial 0 (.ok ()) ++ dial 1 (.error (.no "[UNAVAILABLE] try later")) ++ [.act 1 .go, .act 1 .go]

open Sample

def Sample.refused : System where
  pool := ⟨0, [], 0, 2, 1, 1, 30, 0⟩
  tasks := [.guard ⟨0, none⟩ [], .awaiting ⟨some "INBOX", false⟩]

theorem budget_kept_refused : refused.pool.permits + refused.held .permit + refused.held .forgotten +
        refused.held .promised = refused.pool.ceiling ∧ 1 ≤ refused.pool.ceiling ∧
      refused.pool.ceiling ≤ refused.pool.maxConnections ∧
      refused.pool.workers = refused.held .guard ∧
      refused.pool.parked.length + refused.held .socket ≤ refused.pool.maxConnections ∧
      refused.pool.maxConnections = max 2 1 :=
  @budget_kept 2 30 none refusal refused (Run.of_foldlM (f := System.step) (s := System.start 2 30 none) (by decide))

end Pool
end SyncEngine
