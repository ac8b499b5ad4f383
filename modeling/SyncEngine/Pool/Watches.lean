import SyncEngine.Pool.Budget

/-!
# Watches and the connection left for workers

A reservation is refused where it would leave no connection for workers, by the counter of watches and the ceiling of
that moment.  Two steps undo what it checked.  A reservation that is dropped while it waits for its permit leaves its
slot counted.  And a refused dial brings the ceiling down without a look at the counter.

Where neither happens, the counter is the number of leases and waiting reservations, and the leases never hold every
permit of the ceiling.
-/

namespace SyncEngine
namespace Pool

open Ledger (Move)

/-- The step drops no reservation that waits, and brings the ceiling down only where a connection beside the
counted watches is left. -/
def System.careful (s : System) (e : Event) : Bool :=
  !s.abandons e && (!s.lowers e || decide (s.pool.watches + 1 < s.pool.ceiling))

namespace Ledger

structure Floor (l : Ledger) : Prop where
  counted : l.watches = l.held .slot
  floor : l.held .slot < l.ceiling

variable {l l' : Ledger}

theorem Floor.of_trades {lost gained : List Kind} (h : l.Floor) (hn : Trades l.held l'.held lost gained)
    (hwatches : l'.watches + lost.count .slot = l.watches + gained.count .slot)
    (hceiling : l'.watches < l'.ceiling) : l'.Floor where
  counted := by
    have h₁ := hn .slot
    have h₂ := h.counted
    omega
  floor := by
    have h₁ := hn .slot
    have h₂ := h.counted
    omega

theorem Move.floor {m : Entry} (h : Move m l l') (hb : l.Budget) (hf : l.Floor)
    (habandon : m ≠ .abandon) (hlower : m = .lower → l.watches + 1 < l.ceiling) : l'.Floor := by
  have hwatches : l.watches < l.ceiling := by
    have h₁ := hf.counted
    have h₂ := hf.floor
    omega
  cases h with
  | shelve hn hle =>
    have hslot := hn .slot (by decide)
    exact ⟨hf.counted.trans hslot.symm, Nat.lt_of_le_of_lt (Nat.le_of_eq hslot) hf.floor⟩
  | dial hn hle =>
    have hslot := hn .slot (by decide)
    exact ⟨hf.counted.trans hslot.symm, Nat.lt_of_le_of_lt (Nat.le_of_eq hslot) hf.floor⟩
  | take hfree hn => exact hf.of_trades hn rfl hwatches
  | lease hfree hn => exact hf.of_trades hn rfl hwatches
  | give hn => exact hf.of_trades hn rfl hwatches
  | doom hworker hspare hn => exact hf.of_trades hn rfl hwatches
  | forget hn => exact hf.of_trades hn rfl hwatches
  | lower hn =>
    have hroom := hlower rfl
    refine hf.of_trades hn rfl ?_
    show l.watches < l.ceiling - 1
    omega
  | hire hn => exact hf.of_trades hn rfl hwatches
  | dismiss hn => exact hf.of_trades hn rfl hwatches
  | restore hn =>
    refine hf.of_trades hn ?_ (Nat.lt_of_lt_of_le hwatches hb.ceiling)
    simp [List.count_replicate]
  | refill hn =>
    refine hf.of_trades hn ?_ hwatches
    simp [List.count_replicate]
  | reserve hroom hn => exact hf.of_trades hn rfl hroom
  | @vacate _ n hn =>
    have hloss : n .slot + 1 = l.held .slot := hn .slot
    have hcounted := hf.counted
    refine hf.of_trades hn ?_ ?_
    · show l.watches - 1 + 1 = l.watches + 0
      omega
    · show l.watches - 1 < l.ceiling
      omega
  | abandon hn => exact absurd rfl habandon

end Ledger

/-! ## Every run -/

theorem System.held_slot (s : System) : s.held .slot = s.held .lease + s.tasks.count .counted := by
  unfold System.held
  induction s.tasks with
  | nil => rfl
  | cons t ts ih =>
    have hhead : t.holds.count .slot = t.holds.count .lease + [t].count .counted := by
      cases t with
      | attempting w a => simp [Task.holds, a.count_holds]
      | leased a => simp [Task.holds, a.count_holds]
      | guard c helpers =>
        have hslot : ∀ hs : List Helper, tally Helper.holds .slot hs = tally Helper.holds .lease hs := by
          intro hs
          induction hs with
          | nil => rfl
          | cons h hs ih =>
            rw [tally_cons, tally_cons, ih]
            cases h <;> simp [Helper.holds, Attempt.count_holds]
        have hhelpers := hslot helpers
        simp only [tally] at hhelpers
        simp [Task.holds, hhelpers]
      | returning c => cases c <;> simp [Task.holds]
      | adding lowered => simp [Task.holds, List.count_replicate]
      | _ => simp [Task.holds]
    have hcount : (t :: ts).count .counted = [t].count .counted + ts.count .counted := @List.count_append Task _ _ [t] ts
    simp only [tally_cons]
    omega

variable {s : System}

theorem System.careful_iff {e : Event} : s.careful e = true ↔
    s.abandons e = false ∧ (s.lowers e = true → s.pool.watches + 1 < s.pool.ceiling) := by
  unfold System.careful
  cases s.abandons e <;> cases s.lowers e <;> simp

namespace Sample

def dial (i : Nat) (r : Except ImapError Unit) : List Event :=
  [.act i .go, .act i .go, .act i (.look none), .act i (.dialled r), .act i .go]

/-- One folder is watched, one worker has a connection and another dials, and a second reservation waits for
the permit of one of them. -/
def waiting : List Event :=
  [.call .reserveWatch, .call (.acquire ⟨none, false⟩), .call (.acquire ⟨none, false⟩),
      .call .reserveWatch] ++
    [.act 0 .go] ++ dial 0 (.ok ()) ++ dial 1 (.ok ()) ++
    [.act 2 .go, .act 2 .go, .act 2 (.look none), .act 3 .go]

def watched : System where
  pool := ⟨0, [], 2, 3, 3, 1, 30, 0⟩
  tasks := [.watching ⟨0, none⟩, .guard ⟨0, none⟩ [], .attempting ⟨none, false⟩ (.dialling 0), .counted]

/-- The dial is refused, the first worker's connection comes back, and the reservation takes its permit. -/
def starved : List Event :=
  waiting ++ [.act 2 (.dialled (.error (.bye "too many connections"))), .act 2 .go, .act 2 .go, .act 2 .go] ++
    [.act 1 (.finish false), .act 1 .go, .act 1 .go, .act 1 .go, .act 1 .go] ++ [.act 3 .go]

def dropped : List Event := waiting ++ [.act 3 .abort]

def run (es : List Event) : Option System := es.foldlM System.step (System.start 3 30 none)

end Sample

open Sample

theorem careful_of_foldlM {s' : System} {es : List Event}
    (h : es.foldlM (fun (s : System) e => if s.careful e then s.step e else none) s = some s') :
    Run (fun s e s' => s.Steps e s' ∧ s.careful e = true) s es s' := by
  refine Run.mono ?_ (Run.of_foldlM h)
  intro s e _ s' hstep
  by_cases hc : s.careful e = true
  · rw [if_pos hc] at hstep
    exact ⟨hstep, hc⟩
  · rw [if_neg hc] at hstep
    cases hstep

end Pool
end SyncEngine
