import Mathlib
import SyncEngine.Library.LeakyBucket

/-!
# Pacing an account

An account's requests spend a budget of the server's own units: so many each span of time.  A tenth of it may be
spent at once.  The interval a unit takes is rounded up, but it is no longer than the clock's largest count of
nanoseconds, and past that the budget can be overrun.
-/

namespace SyncEngine
namespace Http

open LeakyBucket

/-- A length of time: seconds that `u64` holds, and the nanoseconds after them. -/
structure Span where
  nanos : Nat
  inRange : nanos < 2 ^ 64 * 1000000000

/-- A budget of `units` for each `per`.  `paidOff` is when everything reserved so far is paid for. -/
structure Pace where
  units : Nat
  per : Span
  paidOff : Option Nat
  pos : 0 < units
  fits : units < 2 ^ 32

def burstShare : Nat := 10

def burst (units : Nat) : Nat := max (units / burstShare) 1

/-- The units a span pays off, but for the burst. -/
def sustained (units : Nat) : Nat := max (units - burst units) 1

def maxNanos : Nat := 2 ^ 64 - 1

/-- How long a unit takes to pay off, rounded up. -/
def interval (units : Nat) (per : Span) : Nat :=
  min ((per.nanos + (sustained units - 1)) / sustained units) maxNanos

namespace Pace

theorem clamped_pos (units : UInt32) : 0 < max units.toNat 1 := by omega

theorem clamped_fits (units : UInt32) : max units.toNat 1 < 2 ^ 32 := by
  have h := units.toNat_lt
  omega

def new (units : UInt32) (per : Span) : Pace := ⟨max units.toNat 1, per, none, clamped_pos units, clamped_fits units⟩

def isSlower (pace : Pace) (units : UInt32) (per : Span) : Bool :=
  max units.toNat 1 * pace.per.nanos < pace.units * per.nanos

/-- Another rate, with what is reserved kept. -/
def restate (pace : Pace) (units : UInt32) (per : Span) : Pace :=
  { pace with units := max units.toNat 1, per, pos := clamped_pos units, fits := clamped_fits units }

/-- A multiple of a length of time, where there is one. -/
def mulSpan (nanos n : Nat) : Option Nat := if nanos * n < 2 ^ 64 * 1000000000 then some (nanos * n) else none

/-- The instant so much later, up to the last one the clock holds. -/
def addSpan (last t nanos : Nat) : Option Nat := if t + nanos ≤ last then some (t + nanos) else none

/-- Reserves a cost and says how long the caller waits.  There is no result where the arithmetic overflows.  An
instant before the clock's first is earlier than any call. -/
def reserve (last : Nat) (pace : Pace) (cost now : Nat) : Option (Nat × Pace) := do
  let start := (pace.paidOff.map (max · now)).getD now
  let owed ← mulSpan (interval pace.units pace.per) cost
  let paidOff ← addSpan last start owed
  let credit ← mulSpan (interval pace.units pace.per) (burst pace.units)
  return (paidOff - credit - now, { pace with paidOff := some paidOff })

end Pace

/-! ## The gate -/

/-- Adopts a budget where there is none, or where it is slower than the one there is. -/
def paceTo (gate : Option Pace) (units : UInt32) (per : Span) : Option Pace :=
  match gate with
  | some current => if current.isSlower units per then some (current.restate units per) else some current
  | none => some (.new units per)

/-- Charges a call, and says how long it waits. -/
def spend (last : Nat) (gate : Option Pace) (units now : Nat) : Option (Nat × Option Pace) :=
  if units = 0 then some (0, gate)
  else
    match gate with
    | some pace => (pace.reserve last units now).map fun (wait, pace) => (wait, some pace)
    | none => some (0, none)

def spendAll (last : Nat) : Option Pace → List Call → Option (List Release × Option Pace)
  | gate, [] => some ([], gate)
  | gate, call :: rest => do
    let (wait, gate) ← spend last gate call.cost call.now
    let (rs, gate) ← spendAll last gate rest
    return (⟨call.now + wait, call.cost⟩ :: rs, gate)

/-- Every call costs something, and no more than may be spent at once. -/
def WithinBurst (units : Nat) (calls : List Call) : Prop := ∀ call ∈ calls, 1 ≤ call.cost ∧ call.cost ≤ burst units

/-! ## The calls as a leaky bucket -/

section Bucket

variable {last : Nat} {pace : Pace} {call : Call} {calls : List Call} {rs : List Release} {gate : Option Pace}

theorem burst_le {units : Nat} (h : units < 2 ^ 32) : burst units < 1000000000 := by
  unfold burst burstShare
  omega

theorem mulSpan_interval {units n : Nat} {per : Span} (hunits : units < 2 ^ 32) (hn : n ≤ burst units) :
    Pace.mulSpan (interval units per) n = some (interval units per * n) := by
  have hburst := burst_le hunits
  have hinterval : interval units per ≤ 2 ^ 64 - 1 := Nat.min_le_right _ _
  have hmul : interval units per * n ≤ (2 ^ 64 - 1) * 999999999 := Nat.mul_le_mul hinterval (by omega)
  unfold Pace.mulSpan
  rw [if_pos (by omega)]

/-- What is owed, where nothing may be. -/
def Pace.owed (pace : Pace) : Nat := pace.paidOff.getD 0

theorem start_eq (now : Nat) : (pace.paidOff.map (max · now)).getD now = max pace.owed now := by
  unfold Pace.owed
  cases pace.paidOff with
  | none => simp
  | some t => rfl

def Pace.after (pace : Pace) (call : Call) : Pace :=
  { pace with paidOff := some (payOff (interval pace.units pace.per) pace.owed call) }

theorem spend_eq (hcost : 1 ≤ call.cost ∧ call.cost ≤ burst pace.units) : spend last (some pace) call.cost call.now =
      if payOff (interval pace.units pace.per) pace.owed call ≤ last then
        some (payOff (interval pace.units pace.per) pace.owed call -
          interval pace.units pace.per * burst pace.units - call.now, some (pace.after call))
      else none := by
  have hne : call.cost ≠ 0 := by omega
  have howed := @mulSpan_interval pace.units call.cost pace.per pace.fits hcost.2
  have hcredit := @mulSpan_interval pace.units _ pace.per pace.fits (Nat.le_refl _)
  unfold spend Pace.reserve
  simp only [hne, if_false, start_eq, howed, hcredit, Option.bind_eq_bind, Option.bind_some]
  unfold Pace.addSpan
  have hpay : payOff (interval pace.units pace.per) pace.owed call =
      max pace.owed call.now + interval pace.units pace.per * call.cost := rfl
  rw [← hpay]
  by_cases h : payOff (interval pace.units pace.per) pace.owed call ≤ last
  · rw [if_pos h, if_pos h]
    rfl
  · rw [if_neg h, if_neg h]
    rfl

theorem release_eq (interval burst owed : Nat) (call : Call) :
    call.now + (payOff interval owed call - interval * burst - call.now) = releaseTime interval burst owed call := by
  unfold releaseTime
  omega

theorem spendAll_some (hcost : WithinBurst pace.units calls) (h : spendAll last (some pace) calls = some (rs, gate)) :
    rs = releases (interval pace.units pace.per) (burst pace.units) pace.owed calls ∧
      (calls = [] ∨ owedAfter (interval pace.units pace.per) pace.owed calls ≤ last) ∧
      ∃ pace', gate = some pace' ∧ pace'.units = pace.units ∧ pace'.per = pace.per := by
  induction calls generalizing pace rs with
  | nil =>
    obtain ⟨rfl, rfl⟩ := Prod.mk.inj (Option.some.inj h)
    exact ⟨rfl, Or.inl rfl, pace, rfl, rfl, rfl⟩
  | cons call rest ih =>
    have hcall := hcost call List.mem_cons_self
    have hspend := @spend_eq last pace call hcall
    have hstep : (spend last (some pace) call.cost call.now >>= _) = some (rs, gate) := h
    rw [hspend] at hstep
    by_cases hlast : payOff (interval pace.units pace.per) pace.owed call ≤ last
    · rw [if_pos hlast] at hstep
      have hnext : (spendAll last (some (pace.after call)) rest >>= _) = some (rs, gate) := hstep
      obtain ⟨⟨rest', gate'⟩, hrest, hstep⟩ := Option.bind_eq_some_iff.mp hnext
      obtain ⟨rfl, rfl⟩ := Prod.mk.inj (Option.some.inj hstep)
      have hlater : WithinBurst (pace.after call).units rest := fun c hc => hcost c (List.mem_cons_of_mem _ hc)
      obtain ⟨hrs, howed, pace', hgate, hunits, hper⟩ := ih hlater hrest
      refine ⟨?_, Or.inr ?_, pace', hgate, hunits, hper⟩
      · rw [release_eq, hrs]
        rfl
      · rcases howed with rfl | howed
        · exact hlast
        · exact howed
    · rw [if_neg hlast] at hstep
      exact nomatch hstep

theorem spendAll_of_le (hcost : WithinBurst pace.units calls)
    (hlast : owedAfter (interval pace.units pace.per) pace.owed calls ≤ last) :
    ∃ rs gate, spendAll last (some pace) calls = some (rs, gate) := by
  induction calls generalizing pace with
  | nil => exact ⟨_, _, rfl⟩
  | cons call rest ih =>
    have hlater : WithinBurst (pace.after call).units rest := fun c hc => hcost c (List.mem_cons_of_mem _ hc)
    obtain ⟨rs, gate, hrest⟩ := @ih (pace.after call) hlater hlast
    have howed : payOff (interval pace.units pace.per) pace.owed call ≤
        owedAfter (interval pace.units pace.per) pace.owed (call :: rest) := le_owedAfter
    have hspend := @spend_eq last pace call (hcost call List.mem_cons_self)
    rw [if_pos (Nat.le_trans howed hlast)] at hspend
    refine ⟨⟨call.now + (payOff (interval pace.units pace.per) pace.owed call -
      interval pace.units pace.per * burst pace.units - call.now), call.cost⟩ :: rs, gate, ?_⟩
    unfold spendAll
    rw [hspend]
    show (spendAll last (some (pace.after call)) rest >>= _) = _
    rw [hrest]
    rfl

end Bucket

/-! ## The budget -/

/-- The interval is not cut short, or not by enough to carry one unit more, or the clock ends before it matters. -/
def Affordable (last units : Nat) (per : Span) : Prop :=
  per.nanos ≤ maxNanos * (units - burst units + 1) ∨ last < (units + 1) * maxNanos

section Budget

variable {last units s : Nat} {per : Span} {owed : Nat} {calls : List Call}

theorem burst_lt (h : 2 ≤ units) : burst units < units := by
  unfold burst burstShare
  omega

theorem sustained_eq (h : 2 ≤ units) : sustained units = units - burst units := by
  have hlt := burst_lt h
  unfold sustained
  omega

theorem le_interval_mul (h : interval units per < maxNanos) : per.nanos ≤ interval units per * sustained units := by
  have hpos : 0 < sustained units := by
    unfold sustained
    omega
  have hceil : interval units per = (per.nanos + (sustained units - 1)) / sustained units := by
    unfold interval at h ⊢
    omega
  rw [hceil]
  have hdiv := Nat.div_add_mod (per.nanos + (sustained units - 1)) (sustained units)
  have hmod := Nat.mod_lt (per.nanos + (sustained units - 1)) hpos
  rw [Nat.mul_comm] at hdiv
  omega

theorem spent_le_units (hunits : 2 ≤ units) (hafford : Affordable last units per) (hordered : Ordered calls)
    (hcost : WithinBurst units calls) (hlast : calls = [] ∨ owedAfter (interval units per) owed calls ≤ last) :
    spent s (s + per.nanos) (releases (interval units per) (burst units) owed calls) ≤ units := by
  have hburst := burst_lt hunits
  have hsustained := sustained_eq hunits
  rcases spent_le hordered fun call hcall => (hcost call hcall).2 with hzero | hspent
  · rw [hzero]
    omega
  · generalize hn : spent s (s + per.nanos) (releases (interval units per) (burst units) owed calls) = n at hspent ⊢
    by_cases hcut : interval units per < maxNanos
    · have hper := le_interval_mul hcut
      rw [hsustained] at hper
      have hlt : interval units per * n < interval units per * units := by
        calc interval units per * n < per.nanos + interval units per * burst units := by omega
          _ ≤ interval units per * (units - burst units) + interval units per * burst units := by omega
          _ = interval units per * units := by rw [← Nat.mul_add, Nat.sub_add_cancel (Nat.le_of_lt hburst)]
      exact Nat.le_of_lt (Nat.lt_of_mul_lt_mul_left hlt)
    · have hmax : interval units per = maxNanos := by
        have hle : interval units per ≤ maxNanos := Nat.min_le_right _ _
        omega
      rw [hmax] at hspent
      rcases hafford with hper | hclock
      · have hlt : maxNanos * n < maxNanos * (units + 1) := by
          calc maxNanos * n < per.nanos + maxNanos * burst units := by omega
            _ ≤ maxNanos * (units - burst units + 1) + maxNanos * burst units := by omega
            _ = maxNanos * (units + 1) := by
              rw [← Nat.mul_add]
              congr 1
              omega
        exact Nat.le_of_lt_succ (Nat.lt_of_mul_lt_mul_left hlt)
      · -- so many units are not paid off before the clock ends
        rcases hlast with rfl | hlast
        · have hnil : n = 0 := hn.symm
          omega
        · have htotal := @total_le_owedAfter (interval units per) (burst units) owed calls
          have hle := @spent_le_total s (s + per.nanos) (releases (interval units per) (burst units) owed calls)
          rw [hn] at hle
          rw [hmax] at htotal hle hlast
          have hmul := Nat.mul_le_mul_left maxNanos hle
          have hlt : maxNanos * n < maxNanos * (units + 1) := by
            rw [Nat.mul_comm maxNanos (units + 1)]
            omega
          exact Nat.le_of_lt_succ (Nat.lt_of_mul_lt_mul_left hlt)

theorem interval_eq_max (hunits : 2 ≤ units) (hper : maxNanos * (units - burst units + 1) < per.nanos) :
    interval units per = maxNanos := by
  have hsustained := sustained_eq hunits
  have hlt := burst_lt hunits
  have hpos : 0 < sustained units := by omega
  have hle : maxNanos * sustained units ≤ maxNanos * (sustained units + 1) := Nat.mul_le_mul_left _ (Nat.le_succ _)
  rw [← hsustained] at hper
  apply Nat.min_eq_right
  rw [Nat.le_div_iff_mul_le hpos]
  omega

end Budget

/-- So many calls of one unit, at one time. -/
def atOnce (n : Nat) : List Call := List.replicate n ⟨0, 1⟩

theorem owedAfter_atOnce (interval owed n : Nat) : owedAfter interval owed (atOnce n) = owed + interval * n := by
  induction n generalizing owed with
  | zero => rfl
  | succ n ih =>
    show owedAfter interval (payOff interval owed ⟨0, 1⟩) (atOnce n) = _
    have hmul : interval * (n + 1) = interval * n + interval := Nat.mul_succ _ _
    rw [ih]
    unfold payOff
    dsimp only
    omega

theorem atOnce_ordered (n : Nat) : Ordered (atOnce n) := by
  unfold Ordered atOnce
  rw [List.pairwise_replicate]
  exact Or.inr (Nat.le_refl _)

theorem atOnce_withinBurst (units n : Nat) : WithinBurst units (atOnce n) := by
  intro call hcall
  obtain rfl := List.eq_of_mem_replicate hcall
  have hburst : 1 ≤ burst units := Nat.le_max_right _ _
  exact ⟨Nat.le_refl _, hburst⟩

theorem time_le_atOnce {interval burst owed n : Nat} {r : Release} (h : r ∈ releases interval burst owed (atOnce n)) :
    r.time ≤ owed + interval * n - interval * burst := by
  induction n generalizing owed with
  | zero => exact nomatch h
  | succ n ih =>
    have hpay : payOff interval owed ⟨0, 1⟩ = owed + interval := by
      unfold payOff
      dsimp only
      omega
    rw [Nat.mul_succ]
    rcases List.mem_cons.mp h with rfl | hmem
    · show releaseTime interval burst owed ⟨0, 1⟩ ≤ _
      unfold releaseTime
      rw [hpay]
      dsimp only
      omega
    · have hlater := ih hmem
      rw [hpay] at hlater
      omega

theorem total_atOnce (interval burst owed n : Nat) : total (releases interval burst owed (atOnce n)) = n := by
  induction n generalizing owed with
  | zero => rfl
  | succ n ih =>
    show total (_ :: releases interval burst _ (atOnce n)) = n + 1
    rw [total_cons, ih]
    dsimp only
    omega

/-- Whether a budget is kept: calls go out in the order they ask, every span carries at most the units, and so does
every span after a slower rate was adopted, once what the old rate reserved is out. -/
def KeepsBudget (last : Nat) (units : UInt32) (per : Span) : Prop :=
  (∀ calls rs gate, Ordered calls → WithinBurst units.toNat calls →
    spendAll last (paceTo none units per) calls = some (rs, gate) →
    (rs.Pairwise fun a b => a.time ≤ b.time) ∧ ∀ s, spent s (s + per.nanos) rs ≤ units.toNat) ∧
  ∀ (old : UInt32) (oldPer : Span) (before calls : List Call) (rs₀ rs : List Release) (pace : Pace) (gate : Option Pace),
    2 ≤ old.toNat → Ordered (before ++ calls) → WithinBurst old.toNat before → WithinBurst units.toNat calls →
    spendAll last (paceTo none old oldPer) before = some (rs₀, some pace) → pace.isSlower units per = true →
    spendAll last (paceTo (some pace) units per) calls = some (rs, gate) →
    ∀ s, (∀ r ∈ rs₀, r.time < s) → spent s (s + per.nanos) (rs₀ ++ rs) ≤ units.toNat

section Kept

variable {last : Nat} {units : UInt32} {per : Span}

theorem max_units (h : 2 ≤ units.toNat) : max units.toNat 1 = units.toNat := by omega

theorem overrun (hunits : 2 ≤ units.toNat) (h : ¬Affordable last units.toNat per) :
    ∃ rs gate, spendAll last (paceTo none units per) (atOnce (units.toNat + 1)) = some (rs, gate) ∧
      spent 0 (0 + per.nanos) rs = units.toNat + 1 := by
  unfold Affordable at h
  rw [not_or, not_le, not_lt] at h
  have hinterval := interval_eq_max hunits h.1
  have hnew : (Pace.new units per).units = units.toNat := max_units hunits
  have hper : (Pace.new units per).per = per := rfl
  have howed : (Pace.new units per).owed = 0 := rfl
  have hcost : WithinBurst (Pace.new units per).units (atOnce (units.toNat + 1)) := atOnce_withinBurst _ _
  have hlast : owedAfter (interval (Pace.new units per).units (Pace.new units per).per) (Pace.new units per).owed
      (atOnce (units.toNat + 1)) ≤ last := by
    rw [hnew, hper, howed, hinterval, owedAfter_atOnce, Nat.zero_add, Nat.mul_comm]
    exact h.2
  obtain ⟨rs, gate, hrun⟩ := spendAll_of_le hcost hlast
  obtain ⟨hrs, -, -⟩ := spendAll_some hcost hrun
  refine ⟨rs, gate, hrun, ?_⟩
  rw [hnew, hper, howed, hinterval] at hrs
  have hbefore : ∀ r ∈ rs, 0 ≤ r.time ∧ r.time < 0 + per.nanos := by
    intro r hr
    rw [hrs] at hr
    have htime := time_le_atOnce hr
    have hlt := burst_lt hunits
    have hmul : maxNanos * (units.toNat + 1) - maxNanos * burst units.toNat =
        maxNanos * (units.toNat - burst units.toNat + 1) := by
      rw [← Nat.mul_sub]
      congr 1
      omega
    omega
  rw [spent_eq_total hbefore, hrs]
  exact total_atOnce _ _ _ _

/-- A budget is kept just where the interval is not cut short, or not by enough to matter. -/
theorem keepsBudget_iff (hunits : 2 ≤ units.toNat) : KeepsBudget last units per ↔ Affordable last units.toNat per := by
  constructor
  · intro hkeeps
    by_contra hnot
    obtain ⟨rs, gate, hrun, hspent⟩ := overrun hunits hnot
    have hle := (hkeeps.1 _ rs gate (atOnce_ordered _) (atOnce_withinBurst _ _) hrun).2 0
    omega
  · intro hafford
    constructor
    · intro calls rs gate hordered hcost hrun
      have hcost' : WithinBurst (Pace.new units per).units calls := by
        show WithinBurst (max units.toNat 1) calls
        rwa [max_units hunits]
      obtain ⟨hrs, hlast, -⟩ := spendAll_some hcost' hrun
      constructor
      · rw [hrs]
        exact releases_ordered hordered
      · intro s
        rw [hrs]
        have hnew : (Pace.new units per).units = units.toNat := max_units hunits
        rw [hnew] at hlast ⊢
        exact spent_le_units hunits hafford hordered hcost hlast
    · intro old oldPer before calls rs₀ rs pace gate _ hordered _ hcost _ hslower hrun s hbefore
      have hgate : paceTo (some pace) units per = some (pace.restate units per) := by
        show (if pace.isSlower units per then some (pace.restate units per) else some pace) = _
        rw [if_pos hslower]
      have hnew : (pace.restate units per).units = units.toNat := max_units hunits
      have hcost' : WithinBurst (pace.restate units per).units calls := by rwa [hnew]
      rw [hgate] at hrun
      obtain ⟨hrs, hlast, -⟩ := spendAll_some hcost' hrun
      rw [spent_append_of_lt hbefore, hrs]
      rw [hnew] at hlast ⊢
      exact spent_le_units hunits hafford (List.pairwise_append.mp hordered).2.1 hcost hlast

end Kept

/-- Gmail's budget: 6000 units a minute, on a clock of `i64` seconds. -/
theorem keepsBudget_gmail : KeepsBudget (2 ^ 63 * 1000000000) 6000 ⟨60000000000, by decide⟩ := by
  refine (keepsBudget_iff (by decide)).mpr ?_
  unfold Affordable
  decide

/-- Two units in 2000 years: a third goes out within the span. -/
theorem budget_overrun : ¬∀ (last : Nat) (units : UInt32) (per : Span), 2 ≤ units.toNat → KeepsBudget last units per := by
  intro h
  have hnot : ¬Affordable (2 ^ 63 * 1000000000) (2 : UInt32).toNat ⟨2000 * 31556952000000000, by decide⟩ := by
    unfold Affordable
    decide
  obtain ⟨rs, gate, hrun, hspent⟩ := overrun (by decide) hnot
  have hle := ((h _ _ _ (by decide)).1 _ rs gate (atOnce_ordered _) (atOnce_withinBurst _ _) hrun).2 0
  rw [hspent] at hle
  revert hle
  decide

end Http
end SyncEngine
