import Mathlib

/-!
# A leaky bucket in virtual time

Each unit of a call's cost takes an interval to pay off.  A call is released once what is still owed, its own cost
included, is no more than the burst takes; what is released within a span is bounded by its length and the burst.
-/

namespace SyncEngine
namespace LeakyBucket

structure Call where
  now : Nat
  cost : Nat
deriving DecidableEq, Repr

/-- A call that goes out. -/
structure Release where
  time : Nat
  cost : Nat
deriving DecidableEq, Repr

/-- When everything is paid off, after a call at a time when all before it is paid off at `owed`. -/
def payOff (interval owed : Nat) (call : Call) : Nat := max owed call.now + interval * call.cost

def releaseTime (interval burst owed : Nat) (call : Call) : Nat :=
  max call.now (payOff interval owed call - interval * burst)

def releases (interval burst : Nat) : Nat → List Call → List Release
  | _, [] => []
  | owed, call :: rest =>
    ⟨releaseTime interval burst owed call, call.cost⟩ :: releases interval burst (payOff interval owed call) rest

def owedAfter (interval : Nat) : Nat → List Call → Nat
  | owed, [] => owed
  | owed, call :: rest => owedAfter interval (payOff interval owed call) rest

/-- The calls ask one after the other. -/
def Ordered (calls : List Call) : Prop := calls.Pairwise fun a b => a.now ≤ b.now

def total (rs : List Release) : Nat := (rs.map Release.cost).sum

/-- What is released from `s` on and before `t`. -/
def spent (s t : Nat) (rs : List Release) : Nat := total (rs.filter fun r => s ≤ r.time && r.time < t)

section Sums

variable {s t : Nat} {r : Release} {rs rs' : List Release}

theorem total_cons : total (r :: rs) = r.cost + total rs := by
  unfold total
  rw [List.map_cons, List.sum_cons]

theorem spent_cons_of_mem (hs : s ≤ r.time) (ht : r.time < t) : spent s t (r :: rs) = r.cost + spent s t rs := by
  unfold spent
  rw [List.filter_cons_of_pos (by simp [hs, ht]), total_cons]

theorem spent_cons_of_lt (hs : r.time < s) : spent s t (r :: rs) = spent s t rs := by
  unfold spent
  rw [List.filter_cons_of_neg (by simp; omega)]

theorem spent_eq_zero (h : ∀ r ∈ rs, r.time < s ∨ t ≤ r.time) : spent s t rs = 0 := by
  have hnil : (rs.filter fun r => s ≤ r.time && r.time < t) = [] := by
    rw [List.filter_eq_nil_iff]
    intro r hr
    rcases h r hr with hlt | hle
    · simp
      omega
    · simp
      omega
  unfold spent
  rw [hnil]
  rfl

theorem spent_eq_total (h : ∀ r ∈ rs, s ≤ r.time ∧ r.time < t) : spent s t rs = total rs := by
  unfold spent
  rw [List.filter_eq_self.mpr]
  intro r hr
  simp [h r hr]

theorem spent_le_total : spent s t rs ≤ total rs := by
  unfold spent total
  exact List.Sublist.sum_le_sum (List.filter_sublist.map _) fun _ _ => Nat.zero_le _

theorem spent_append_of_lt (h : ∀ r ∈ rs, r.time < s) : spent s t (rs ++ rs') = spent s t rs' := by
  induction rs with
  | nil => rfl
  | cons r rs ih =>
    rw [List.cons_append, spent_cons_of_lt (h r List.mem_cons_self)]
    exact ih fun x hx => h x (List.mem_cons_of_mem _ hx)

theorem spent_of_ge {s' : Nat} (h : ∀ r ∈ rs, s ≤ r.time) (hle : s' ≤ s) : spent s' t rs = spent s t rs := by
  unfold spent
  congr 1
  apply List.filter_congr
  intro r hr
  have hs := h r hr
  have hs' : s' ≤ r.time := by omega
  simp [hs, hs']

end Sums

variable {interval burst owed s t : Nat} {call : Call} {calls : List Call}

theorem owed_le_payOff : owed ≤ payOff interval owed call := by
  unfold payOff
  omega

theorem le_owedAfter : owed ≤ owedAfter interval owed calls := by
  induction calls generalizing owed with
  | nil => exact Nat.le_refl _
  | cons call rest ih =>
    have hstep : payOff interval owed call ≤ owedAfter interval (payOff interval owed call) rest := ih
    show owed ≤ owedAfter interval (payOff interval owed call) rest
    exact Nat.le_trans owed_le_payOff hstep

theorem total_le_owedAfter :
    owed + interval * total (releases interval burst owed calls) ≤ owedAfter interval owed calls := by
  induction calls generalizing owed with
  | nil => simp [releases, owedAfter, total]
  | cons call rest ih =>
    have hrest : payOff interval owed call + interval * total (releases interval burst (payOff interval owed call) rest) ≤
        owedAfter interval (payOff interval owed call) rest := ih
    have hstep : owed + interval * call.cost ≤ payOff interval owed call := by
      unfold payOff
      omega
    show owed + interval * total (_ :: releases interval burst (payOff interval owed call) rest) ≤
      owedAfter interval (payOff interval owed call) rest
    rw [total_cons, Nat.mul_add]
    dsimp only
    omega

/-! ## In the order they ask -/

theorem le_time_of_mem {first : Nat} {r : Release} (hnow : ∀ call ∈ calls, first ≤ call.now)
    (h : r ∈ releases interval burst owed calls) : max first (owed - interval * burst) ≤ r.time := by
  induction calls generalizing owed with
  | nil => exact nomatch h
  | cons call rest ih =>
    have hfirst := hnow call List.mem_cons_self
    have howed := @owed_le_payOff interval owed call
    rcases List.mem_cons.mp h with rfl | hmem
    · show max first (owed - interval * burst) ≤ releaseTime interval burst owed call
      unfold releaseTime
      omega
    · have hlater := ih (fun c hc => hnow c (List.mem_cons_of_mem _ hc)) hmem
      omega

theorem releases_cons_le (hordered : Ordered (call :: calls)) :
    ∀ r ∈ releases interval burst (payOff interval owed call) calls, releaseTime interval burst owed call ≤ r.time := by
  intro r hr
  exact le_time_of_mem (List.pairwise_cons.mp hordered).1 hr

theorem releases_ordered (hordered : Ordered calls) :
    (releases interval burst owed calls).Pairwise fun a b => a.time ≤ b.time := by
  induction calls generalizing owed with
  | nil => exact List.Pairwise.nil
  | cons call rest ih =>
    apply List.Pairwise.cons
    · exact releases_cons_le hordered
    · exact ih (List.pairwise_cons.mp hordered).2

/-! ## What a span carries -/

theorem spent_before (hordered : Ordered (call :: calls)) (ht : releaseTime interval burst owed call < t) :
    max owed call.now + interval * spent 0 t (releases interval burst owed (call :: calls)) + 1 ≤
      t + interval * burst := by
  induction calls generalizing owed call with
  | nil =>
    show max owed call.now + interval * spent 0 t [⟨releaseTime interval burst owed call, call.cost⟩] + 1 ≤ _
    rw [spent_cons_of_mem (Nat.zero_le _) ht, spent_eq_zero fun r hr => absurd hr List.not_mem_nil]
    simp only [Nat.add_zero]
    unfold releaseTime payOff at ht
    omega
  | cons next rest ih =>
    show max owed call.now + interval * spent 0 t (⟨releaseTime interval burst owed call, call.cost⟩ ::
      releases interval burst (payOff interval owed call) (next :: rest)) + 1 ≤ _
    rw [spent_cons_of_mem (Nat.zero_le _) ht, Nat.mul_add]
    dsimp only
    have htail : Ordered (next :: rest) := (List.pairwise_cons.mp hordered).2
    by_cases hnext : releaseTime interval burst (payOff interval owed call) next < t
    · have hrest := ih htail hnext
      have hpaid : payOff interval owed call = max owed call.now + interval * call.cost := rfl
      omega
    · have hnone : spent 0 t (releases interval burst (payOff interval owed call) (next :: rest)) = 0 := by
        apply spent_eq_zero
        intro r hr
        right
        rcases List.mem_cons.mp hr with rfl | hmem
        · show t ≤ releaseTime interval burst (payOff interval owed call) next
          omega
        · have hlater := releases_cons_le htail r hmem
          omega
      rw [hnone]
      unfold releaseTime payOff at ht
      omega

theorem spent_le (hordered : Ordered calls) (hcost : ∀ call ∈ calls, call.cost ≤ burst) :
    spent s t (releases interval burst owed calls) = 0 ∨
      s + interval * spent s t (releases interval burst owed calls) + 1 ≤ t + interval * burst := by
  induction calls generalizing owed with
  | nil => exact Or.inl rfl
  | cons call rest ih =>
    have htail : Ordered rest := (List.pairwise_cons.mp hordered).2
    by_cases hbefore : releaseTime interval burst owed call < s
    · have hskip : spent s t (releases interval burst owed (call :: rest)) =
          spent s t (releases interval burst (payOff interval owed call) rest) := spent_cons_of_lt hbefore
      rw [hskip]
      exact ih htail fun c hc => hcost c (List.mem_cons_of_mem _ hc)
    · have hfrom : ∀ r ∈ releases interval burst owed (call :: rest), releaseTime interval burst owed call ≤ r.time := by
        intro r hr
        rcases List.mem_cons.mp hr with rfl | hmem
        · exact Nat.le_refl _
        · exact releases_cons_le hordered r hmem
      by_cases hafter : releaseTime interval burst owed call < t
      · right
        have hspent := spent_before hordered hafter
        have hsame : spent 0 t (releases interval burst owed (call :: rest)) =
            spent s t (releases interval burst owed (call :: rest)) := by
          apply spent_of_ge _ (Nat.zero_le _)
          intro r hr
          have hr := hfrom r hr
          omega
        rw [hsame] at hspent
        -- a cost within the burst is released no later than it starts to be paid
        have hstart : releaseTime interval burst owed call ≤ max owed call.now := by
          have hmul : interval * call.cost ≤ interval * burst := Nat.mul_le_mul_left _ (hcost call List.mem_cons_self)
          unfold releaseTime payOff
          omega
        omega
      · left
        apply spent_eq_zero
        intro r hr
        have hr := hfrom r hr
        omega

end LeakyBucket
end SyncEngine
