import SyncEngine.Pool.Model

/-!
# Every step is a move of the ledger

A step changes what one task holds.  Of the others it is enough to know that a guard has a permit it does not
mean to forget and a socket has a permit, which is so of every task.
-/

namespace SyncEngine
namespace Pool

open Ledger (Move)

/-- The step brings the ceiling down. -/
def Helper.lowers : Helper → Act → Bool
  | .forgotten, .go => true
  | _, _ => false

/-- The step brings the ceiling down. -/
def Task.lowers : Task → Act → Bool
  | .forgotten _, .go => true
  | .guard _ helpers, .helper j a => (helpers[j]?).any fun h => h.lowers a
  | _, _ => false

/-- The step drops a reservation that waits for its permit. -/
def Task.abandons : Task → Act → Bool
  | .counted, .abort => true
  | _, _ => false

/-! ## One task and the others -/

/-- What one task holds, and the others. -/
def load (x : List Kind) (rest : Kind → Nat) (k : Kind) : Nat := x.count k + rest k

structure Rest (n : Kind → Nat) : Prop where
  guards : n .guard ≤ n .steady
  sockets : n .socket ≤ n .permit

theorem trades_load {x y lost gained : List Kind} (rest : Kind → Nat)
    (h : ∀ k, y.count k + lost.count k = x.count k + gained.count k) :
    Trades (load x rest) (load y rest) lost gained := by
  intro k
  have hk := h k
  simp only [load]
  omega

theorem Helper.count_guard_le (h : Helper) : h.holds.count .guard ≤ h.holds.count .steady := by
  cases h with
  | attempting w a => simp [Helper.holds, a.count_holds]
  | lowering => decide
  | forgotten => decide

theorem Helper.count_socket_le (h : Helper) : h.holds.count .socket ≤ h.holds.count .permit := by
  cases h with
  | attempting w a =>
    have ha := a.count_socket_le
    have hpermit := a.count_holds (k := .permit) (by decide)
    simp [Helper.holds, hpermit, ha]
  | lowering => decide
  | forgotten => decide

variable (t : Task)

theorem Task.count_guard_le : t.holds.count .guard ≤ t.holds.count .steady := by
  cases t with
  | attempting w a => simp [Task.holds, a.count_holds]
  | leased a => simp [Task.holds, a.count_holds]
  | guard c helpers =>
    have hle : tally Helper.holds .guard helpers ≤ tally Helper.holds .steady helpers :=
      tally_le Helper.count_guard_le helpers
    simp only [tally] at hle
    simp [Task.holds, hle]
  | returning c => cases c <;> simp [Task.holds]
  | adding lowered => simp [Task.holds, List.count_replicate]
  | _ => simp [Task.holds]

theorem Task.count_socket_le : t.holds.count .socket ≤ t.holds.count .permit := by
  cases t with
  | attempting w a =>
    have ha := a.count_socket_le
    have hpermit := a.count_holds (k := .permit) (by decide)
    simp [Task.holds, hpermit, ha]
  | leased a =>
    have ha := a.count_socket_le
    have hpermit := a.count_holds (k := .permit) (by decide)
    simp [Task.holds, hpermit, ha]
  | guard c helpers =>
    have hle : tally Helper.holds .socket helpers ≤ tally Helper.holds .permit helpers :=
      tally_le Helper.count_socket_le helpers
    simp only [tally] at hle
    simp [Task.holds, hle]
  | returning c => cases c <;> simp [Task.holds]
  | adding lowered => simp [Task.holds, List.count_replicate]
  | _ => simp [Task.holds]

theorem rest_tally (ts : List Task) : Rest fun k => tally Task.holds k ts where
  guards := tally_le Task.count_guard_le ts
  sockets := tally_le Task.count_socket_le ts

/-! ## Attempts and spare calls -/

variable {p p' : ImapPool} {act : Act} {rest : Kind → Nat}

theorem Attempt.step_moves {w : Want} {a a' : Attempt}
    (h : a.step p w act = some (p', a')) (base : List Kind) (hbase : base.count .socket < base.count .permit)
    (hrest : Rest rest) :
    ∃ m, Move m (p.ledger (load (base ++ a.holds) rest)) (p'.ledger (load (base ++ a'.holds) rest)) ∧
      (m = .shelve ∨ m = .dial) := by
  obtain ⟨hpool, hsockets⟩ := Attempt.step_spec h
  have hsame : ∀ k, k ≠ .socket → load (base ++ a'.holds) rest k = load (base ++ a.holds) rest k := by
    intro k hk
    simp [load, a.count_holds hk, a'.count_holds hk]
  rw [hpool]
  rcases hsockets with hle | hnone
  · refine ⟨.shelve, .shelve hsame ?_, .inl rfl⟩
    show p'.parked.length + load (base ++ a'.holds) rest .socket ≤ p.parked.length + load (base ++ a.holds) rest .socket
    simp only [load, List.count_append]
    omega
  · have hone := a'.count_socket_le
    have hpermit := hrest.sockets
    have hmove : Move .dial (p.ledger (load (base ++ a.holds) rest)) { p.ledger (load (base ++ a.holds) rest) with
          shelf := 0, held := load (base ++ a'.holds) rest } := by
      refine .dial hsame ?_
      simp only [load, List.count_append]
      omega
    rw [← hnone] at hmove
    exact ⟨.dial, hmove, .inr rfl⟩

theorem Attempt.drop_moves (p : ImapPool) (a : Attempt) (base : List Kind) (rest : Kind → Nat) :
    Move .shelve (p.ledger (load (base ++ a.holds) rest)) (p.ledger (load base rest)) := by
  refine .shelve (fun k hk => ?_) ?_
  · show load base rest k = load (base ++ a.holds) rest k
    simp [load, a.count_holds hk]
  · show p.parked.length + load base rest .socket ≤ p.parked.length + load (base ++ a.holds) rest .socket
    simp only [load, List.count_append]
    omega

theorem Move.quiet (p : ImapPool) (n : Kind → Nat) : Move .shelve (p.ledger n) (p.ledger n) :=
  .shelve (fun _ _ => rfl) (Nat.le_refl _)

theorem Move.closes (p : ImapPool) (base : List Kind) (rest : Kind → Nat) :
    Move .shelve (p.ledger (load (base ++ [.socket]) rest)) (p.ledger (load base rest)) :=
  Attempt.drop_moves p (.dialling 0) base rest

variable {h : Helper} {new : List Task}

theorem Helper.step_moves {h' : Option Helper} (hstep : h.step p act = some (p', h', new)) (hrest : Rest rest)
    (hguard : 0 < rest .guard) :
    ∃ m, Move m (p.ledger (load h.holds rest))
        (p'.ledger (load (h'.elim [] Helper.holds ++ new.flatMap Task.holds) rest)) ∧
      (m = .lower → h.lowers act = true) ∧ m ≠ .abandon := by
  revert hstep
  fun_cases Helper.step p h act with
  | case1 w c =>
    intro hstep
    cases hstep
    exact ⟨.hire, .hire (trades_load rest (by intro k; cases k <;> rfl)), by simp, by simp⟩
  | case2 w err =>
    intro hstep
    by_cases hrefused : refusesSessions err
    · rw [if_pos hrefused] at hstep
      cases hstep
      have hspare := hrest.guards
      refine ⟨.doom, .doom (.inr ?_) ?_ (trades_load rest (by intro k; cases k <;> rfl)), by simp, by simp⟩
      · show 0 < load _ rest .guard
        simp only [load]
        omega
      · show load [.permit, .steady] rest .guard < load [.permit, .steady] rest .steady
        simp only [load]
        simp
        omega
    · rw [if_neg hrefused] at hstep
      cases hstep
      exact ⟨.shelve, .shelve (fun k _ => rfl) (Nat.le_refl _), by simp, by simp⟩
  | case3 w a hawaits =>
    intro hstep
    cases hstep
    exact ⟨.shelve, a.drop_moves p [.permit, .steady] rest, by simp, by simp⟩
  | case4 =>
    intro hstep
    cases hstep
  | case5 w a act =>
    intro hstep
    obtain ⟨⟨q, a'⟩, hattempt, heq⟩ := Option.map_eq_some_iff.mp hstep
    cases heq
    obtain ⟨m, hmove, hm⟩ := Attempt.step_moves hattempt [.permit, .steady] (by decide) hrest
    refine ⟨m, by simpa [Helper.holds] using hmove, ?_, ?_⟩ <;> rcases hm with rfl | rfl <;> simp
  | case6 =>
    intro hstep
    cases hstep
    exact ⟨.forget, .forget (trades_load rest (by intro k; cases k <;> rfl)), by simp, by simp⟩
  | case7 =>
    intro hstep
    cases hstep
    exact ⟨.lower, .lower (trades_load rest (by intro k; cases k <;> rfl)), by simp [Helper.lowers], by simp⟩
  | case8 =>
    intro hstep
    cases hstep

/-! ## The steps of a task -/

variable {helpers : List Helper} {j : Nat}

theorem held_replaced (hj : helpers[j]? = some h) (h' : Option Helper) (k : Kind) :
    tally Helper.holds k (replaced helpers j h') =
      (h'.elim [] Helper.holds).count k + tally Helper.holds k (helpers.eraseIdx j) := by
  cases h' with
  | none => simp [replaced]
  | some h' => exact tally_set hj h'

variable {t' : Task}

theorem Task.helper_moves {c : Conn} (hstep : ((helpers[j]?).bind fun h => (h.step p act).map fun (p', h', new) =>
      (p', Task.guard c (replaced helpers j h'), new)) = some (p', t', new))
    (hrest : Rest rest) :
    ∃ m, Move m (p.ledger (load (Task.guard c helpers).holds rest))
        (p'.ledger (load (t'.holds ++ new.flatMap Task.holds) rest)) ∧
      (m = .lower → (Task.guard c helpers).lowers (.helper j act) = true) ∧
      (m = .abandon → (Task.guard c helpers).abandons (.helper j act) = true) := by
  obtain ⟨h, hj, hmap⟩ := Option.bind_eq_some_iff.mp hstep
  obtain ⟨⟨q, h', new'⟩, hcall, heq⟩ := Option.map_eq_some_iff.mp hmap
  cases heq
  -- for the call, the guard and the other calls are among the others
  have hothers : Rest fun k =>
      [Kind.permit, .steady, .guard, .socket].count k + tally Helper.holds k (helpers.eraseIdx j) + rest k := by
    have hguards := hrest.guards
    have hsockets := hrest.sockets
    have hguards' : tally Helper.holds .guard (helpers.eraseIdx j) ≤ tally Helper.holds .steady (helpers.eraseIdx j) :=
      tally_le Helper.count_guard_le (helpers.eraseIdx j)
    have hsockets' : tally Helper.holds .socket (helpers.eraseIdx j) ≤ tally Helper.holds .permit (helpers.eraseIdx j) :=
      tally_le Helper.count_socket_le (helpers.eraseIdx j)
    constructor
    · simp
      omega
    · simp
      omega
  obtain ⟨m, hmove, hlower, habandon⟩ := Helper.step_moves hcall hothers (by simp)
  refine ⟨m, ?_, ?_, fun hm => absurd hm habandon⟩
  · convert hmove using 2
    · funext k
      have hsplit := tally_of_getElem? (f := Helper.holds) (k := k) hj
      simp only [tally] at hsplit
      simp only [load, Task.holds, List.count_append, hsplit, tally]
      omega
    · funext k
      have hsplit := held_replaced hj h' k
      simp only [tally] at hsplit
      simp only [load, Task.holds, List.count_append, hsplit, tally]
      omega
  · intro hm
    simp [Task.lowers, hj, hlower hm]

theorem Task.step_moves {t : Task} (hstep : t.step p act = some (p', t', new)) (hrest : Rest rest) :
    ∃ m, Move m (p.ledger (load t.holds rest)) (p'.ledger (load (t'.holds ++ new.flatMap Task.holds) rest)) ∧
      (m = .lower → t.lowers act = true) ∧ (m = .abandon → t.abandons act = true) := by
  revert hstep
  fun_cases Task.step p t act with
  | case1 w hfree =>
    intro hstep
    cases hstep
    exact ⟨.take, .take hfree (trades_load rest (by intro k; cases k <;> rfl)), by simp, by simp⟩
  | case2 =>
    intro hstep
    cases hstep
  | case3 w =>
    intro hstep
    cases hstep
    exact ⟨.shelve, Move.quiet p _, by simp, by simp⟩
  | case4 w c =>
    intro hstep
    cases hstep
    exact ⟨.hire, .hire (trades_load rest (by intro k; cases k <;> rfl)), by simp, by simp⟩
  | case5 w err hnone =>
    intro hstep
    cases hstep
    exact ⟨.shelve, Move.quiet p _, by simp, by simp⟩
  | case6 w err hsome hrefused =>
    intro hstep
    cases hstep
    -- the caller's own permit is not a worker's
    have hspare : load [.permit, .steady] rest .guard < load [.permit, .steady] rest .steady := by
      have hguards := hrest.guards
      simp [load]
      omega
    exact ⟨.doom, .doom (.inl (Nat.pos_of_ne_zero hsome)) hspare (trades_load rest (by intro k; cases k <;> rfl)), by simp, by simp⟩
  | case7 w err hsome hrefused =>
    intro hstep
    cases hstep
    exact ⟨.shelve, Move.quiet p _, by simp, by simp⟩
  | case8 w a hawaits =>
    intro hstep
    cases hstep
    exact ⟨.shelve, a.drop_moves p [.permit, .steady] rest, by simp, by simp⟩
  | case9 =>
    intro hstep
    cases hstep
  | case10 w a act =>
    intro hstep
    obtain ⟨⟨q, a'⟩, hattempt, heq⟩ := Option.map_eq_some_iff.mp hstep
    cases heq
    obtain ⟨m, hmove, hm⟩ := Attempt.step_moves hattempt [.permit, .steady] (by decide) hrest
    refine ⟨m, by simpa [Task.holds] using hmove, ?_, ?_⟩ <;> rcases hm with rfl | rfl <;> simp
  | case11 w =>
    intro hstep
    cases hstep
    exact ⟨.give, .give (trades_load rest (by intro k; cases k <;> rfl)), by simp, by simp⟩
  | case12 w =>
    intro hstep
    cases hstep
    exact ⟨.forget, .forget (trades_load rest (by intro k; cases k <;> rfl)), by simp, by simp⟩
  | case13 w =>
    intro hstep
    cases hstep
    exact ⟨.lower, .lower (trades_load rest (by intro k; cases k <;> rfl)), by simp [Task.lowers], by simp⟩
  | case14 w =>
    intro hstep
    cases hstep
    exact ⟨.shelve, Move.quiet p _, by simp, by simp⟩
  | case15 w =>
    intro hstep
    cases hstep
    exact ⟨.shelve, Move.quiet p _, by simp, by simp⟩
  | case16 c helpers selected =>
    intro hstep
    cases hstep
    exact ⟨.shelve, by simpa [Task.holds] using Move.quiet p _, by simp, by simp⟩
  | case17 c helpers mailbox hfree =>
    intro hstep
    cases hstep
    refine ⟨.take, .take hfree (trades_load rest fun k => ?_), by simp, by simp⟩
    simp only [Task.holds, Helper.holds, Attempt.holds, List.flatMap_append, List.flatMap_cons,
      List.flatMap_nil, List.append_nil, List.count_append, List.count_nil]
    omega
  | case18 =>
    intro hstep
    cases hstep
  | case19 c helpers j act =>
    intro hstep
    exact Task.helper_moves hstep hrest
  | case20 c discard =>
    intro hstep
    cases hstep
    cases discard with
    | false => exact ⟨.shelve, Move.quiet p _, by simp, by simp⟩
    | true => exact ⟨.shelve, Move.closes p [.permit, .steady, .guard] rest, by simp, by simp⟩
  | case21 =>
    intro hstep
    cases hstep
    exact ⟨.shelve, Move.quiet p _, by simp, by simp⟩
  | case22 c =>
    intro hstep
    cases hstep
    by_cases hstale : c.generation < p.generation
    · rw [if_pos hstale]
      exact ⟨.shelve, Move.closes p [.permit, .steady, .guard] rest, by simp, by simp⟩
    · rw [if_neg hstale]
      exact ⟨.shelve, Move.quiet p _, by simp, by simp⟩
  | case23 c =>
    intro hstep
    cases hstep
    refine ⟨.shelve, .shelve (fun k hk => ?_) ?_, by simp, by simp⟩
    · show load [.permit, .steady, .guard] rest k = load ([.permit, .steady, .guard] ++ [.socket]) rest k
      have hother : [Kind.socket].count k = 0 := List.count_eq_zero.mpr (by simpa using hk)
      simp only [load, List.count_append, hother, Nat.add_zero]
    · show (p.parked ++ [c]).length + load [.permit, .steady, .guard] rest .socket ≤
        p.parked.length + load [.permit, .steady, .guard, .socket] rest .socket
      simp [load]
      omega
  | case24 =>
    intro hstep
    cases hstep
    exact ⟨.dismiss, .dismiss (trades_load rest (by intro k; cases k <;> rfl)), by simp, by simp⟩
  | case25 =>
    intro hstep
    cases hstep
    exact ⟨.give, .give (trades_load rest (by intro k; cases k <;> rfl)), by simp, by simp⟩
  | case26 hfull =>
    intro hstep
    cases hstep
    exact ⟨.shelve, Move.quiet p _, by simp, by simp⟩
  | case27 hfloor =>
    intro hstep
    cases hstep
    have hroom : p.watches + 1 < p.ceiling := Nat.lt_of_not_le hfloor
    exact ⟨.reserve, .reserve hroom (trades_load rest (by intro k; cases k <;> rfl)), by simp, by simp⟩
  | case28 hfree =>
    intro hstep
    cases hstep
    exact ⟨.lease, .lease hfree (trades_load rest (by intro k; cases k <;> rfl)), by simp, by simp⟩
  | case29 =>
    intro hstep
    cases hstep
  | case30 =>
    intro hstep
    cases hstep
    exact ⟨.abandon, .abandon (trades_load rest (by intro k; cases k <;> rfl)), by simp, by simp [Task.abandons]⟩
  | case31 c =>
    intro hstep
    cases hstep
    exact ⟨.shelve, Move.quiet p _, by simp, by simp⟩
  | case32 err =>
    intro hstep
    cases hstep
    exact ⟨.shelve, Move.quiet p _, by simp, by simp⟩
  | case33 a hawaits =>
    intro hstep
    cases hstep
    exact ⟨.shelve, a.drop_moves p [.permit, .steady, .slot, .lease] rest, by simp, by simp⟩
  | case34 =>
    intro hstep
    cases hstep
  | case35 a act =>
    intro hstep
    obtain ⟨⟨q, a'⟩, hattempt, heq⟩ := Option.map_eq_some_iff.mp hstep
    cases heq
    obtain ⟨m, hmove, hm⟩ := Attempt.step_moves hattempt [.permit, .steady, .slot, .lease] (by decide) hrest
    refine ⟨m, by simpa [Task.holds] using hmove, ?_, ?_⟩ <;> rcases hm with rfl | rfl <;> simp
  | case36 c selected =>
    intro hstep
    cases hstep
    exact ⟨.shelve, Move.quiet p _, by simp, by simp⟩
  | case37 c discard =>
    intro hstep
    cases hstep
    exact ⟨.shelve, Move.closes p [.permit, .steady, .slot, .lease] rest, by simp, by simp⟩
  | case38 =>
    intro hstep
    cases hstep
    exact ⟨.vacate, .vacate (trades_load rest (by intro k; cases k <;> rfl)), by simp, by simp⟩
  | case39 =>
    intro hstep
    cases hstep
    exact ⟨.shelve, Move.quiet p _, by simp, by simp⟩
  | case40 =>
    intro hstep
    cases hstep
    refine ⟨.shelve, .shelve (fun k _ => rfl) ?_, by simp, by simp⟩
    show 0 + load [] rest .socket ≤ p.parked.length + load [] rest .socket
    omega
  | case41 =>
    intro hstep
    cases hstep
    refine ⟨.restore, .restore (trades_load rest fun k => ?_), by simp, by simp⟩
    simp [Task.holds, ImapPool.ledger]
  | case42 lowered =>
    intro hstep
    cases hstep
    refine ⟨.refill, .refill (trades_load rest fun k => ?_), by simp, by simp⟩
    simp [Task.holds]
  | case43 =>
    intro hstep
    cases hstep

/-! ## The steps of the system -/

/-- The step brings the ceiling down. -/
def System.lowers (s : System) : Event → Bool
  | .act i a => (s.tasks[i]?).any fun t => t.lowers a
  | .call _ => false

/-- The step drops a reservation that waits for its permit. -/
def System.abandons (s : System) : Event → Bool
  | .act i a => (s.tasks[i]?).any fun t => t.abandons a
  | .call _ => false

theorem System.step_moves {s s' : System} {e : Event} (h : s.Steps e s') :
    ∃ m, Move m s.ledger s'.ledger ∧ (m = .lower → s.lowers e = true) ∧ (m = .abandon → s.abandons e = true) := by
  cases e with
  | call c =>
    cases h
    have hheld : (System.held ⟨s.pool, s.tasks ++ [c.task]⟩) = s.held := by
      funext k
      cases c <;> simp [System.held, Call.task, Task.holds]
    refine ⟨.shelve, ?_, by simp, by simp⟩
    show Move .shelve (s.pool.ledger s.held) (s.pool.ledger _)
    rw [hheld]
    exact Move.quiet _ _
  | act i a =>
    obtain ⟨t, hi, hmap⟩ := Option.bind_eq_some_iff.mp h
    obtain ⟨⟨p', t', new⟩, htask, heq⟩ := Option.map_eq_some_iff.mp hmap
    cases heq
    obtain ⟨m, hmove, hlower, habandon⟩ := Task.step_moves htask (rest_tally (s.tasks.eraseIdx i))
    refine ⟨m, ?_, fun hm => ?_, fun hm => ?_⟩
    · have hbefore : s.held = load t.holds fun k => tally Task.holds k (s.tasks.eraseIdx i) := by
        funext k
        exact tally_of_getElem? hi
      have hafter : System.held ⟨p', s.tasks.set i t' ++ new⟩ =
          load (t'.holds ++ new.flatMap Task.holds) fun k => tally Task.holds k (s.tasks.eraseIdx i) := by
        funext k
        have hset := tally_set (f := Task.holds) (k := k) hi t'
        simp only [System.held, tally_append, hset, load, List.count_append]
        simp only [tally]
        omega
      show Move m (s.pool.ledger s.held) (p'.ledger (System.held ⟨p', s.tasks.set i t' ++ new⟩))
      rw [hbefore, hafter]
      exact hmove
    · simp [System.lowers, hi, hlower hm]
    · simp [System.abandons, hi, habandon hm]

end Pool
end SyncEngine
