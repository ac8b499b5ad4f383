import Mathlib

/-!
# The proleptic Gregorian calendar

Days are numbered from 1 January of the year 0.  `beforeYear` and `beforeMonth` count the days before a year and,
within one, before a month.  `yearOf` and `monthOf` find the year and the month a day lies in; a year of an era of 400
is at most one off the number of whole 365-day stretches before the day.
-/

namespace SyncEngine
namespace Civil

def isLeap (year : Int) : Bool := year % 4 = 0 && (year % 100 ≠ 0 || year % 400 = 0)

def yearLength (year : Int) : Int := if isLeap year then 366 else 365

def monthLength (year : Int) (month : Nat) : Nat :=
  if month = 2 then if isLeap year then 29 else 28
  else if month = 4 || month = 6 || month = 9 || month = 11 then 30
  else 31

def beforeYear (year : Int) : Int :=
  365 * year + (year + 3) / 4 - (year + 99) / 100 + (year + 399) / 400

def beforeMonth (year : Int) (month : Nat) : Nat :=
  let leap := if isLeap year then 1 else 0
  match month with
  | 0 | 1 => 0
  | 2 => 31
  | 3 => 59 + leap
  | 4 => 90 + leap
  | 5 => 120 + leap
  | 6 => 151 + leap
  | 7 => 181 + leap
  | 8 => 212 + leap
  | 9 => 243 + leap
  | 10 => 273 + leap
  | 11 => 304 + leap
  | 12 => 334 + leap
  | _ => 365 + leap

def dayNumber (year : Int) (month day : Nat) : Int := beforeYear year + beforeMonth year month + day - 1

def yearOf (n : Int) : Int :=
  let r := n % 146097
  400 * (n / 146097) + if beforeYear (r / 365) ≤ r then r / 365 else r / 365 - 1

/-- The last of the first `m` months that begins by the `k`-th day of a year. -/
def lastBegun (year : Int) (k : Nat) : Nat → Nat
  | 0 => 1
  | m + 1 => if beforeMonth year (m + 1) ≤ k then m + 1 else lastBegun year k m

/-- The month the `k`-th day of a year lies in. -/
def monthOf (year : Int) (k : Nat) : Nat := lastBegun year k 12

/-! ## Years -/

theorem isLeap_iff : isLeap year = true ↔ year % 4 = 0 ∧ (year % 100 ≠ 0 ∨ year % 400 = 0) := by simp [isLeap]

theorem beforeYear_succ (year : Int) : beforeYear (year + 1) = beforeYear year + yearLength year := by
  unfold beforeYear yearLength
  by_cases h : isLeap year = true
  · rw [if_pos h]
    have hleap := isLeap_iff.mp h
    omega
  · rw [if_neg h]
    rw [isLeap_iff] at h
    omega

theorem yearLength_pos (year : Int) : 0 < yearLength year := by
  unfold yearLength
  split <;> omega

theorem beforeYear_mono {a b : Int} (h : a ≤ b) : beforeYear a ≤ beforeYear b := by
  unfold beforeYear
  omega

theorem beforeYear_era (era year : Int) : beforeYear (400 * era + year) = 146097 * era + beforeYear year := by
  unfold beforeYear
  omega

theorem yearOf_spec (n : Int) : beforeYear (yearOf n) ≤ n ∧ n < beforeYear (yearOf n + 1) := by
  unfold yearOf
  dsimp only
  have hera : 146097 * (n / 146097) + n % 146097 = n := by omega
  have hr0 : 0 ≤ n % 146097 := by omega
  have hr1 : n % 146097 < 146097 := by omega
  generalize n % 146097 = r at hera hr0 hr1 ⊢
  generalize n / 146097 = era at hera ⊢
  by_cases h : beforeYear (r / 365) ≤ r
  · rw [if_pos h, add_assoc, beforeYear_era, beforeYear_era]
    refine ⟨by omega, ?_⟩
    have hnext : r < beforeYear (r / 365 + 1) := by
      unfold beforeYear
      omega
    omega
  · rw [if_neg h, add_assoc, beforeYear_era, beforeYear_era, sub_add_cancel]
    refine ⟨?_, by omega⟩
    have hlast : beforeYear (r / 365 - 1) ≤ r := by
      unfold beforeYear
      omega
    omega

theorem yearOf_unique (h₀ : beforeYear year ≤ n) (h₁ : n < beforeYear (year + 1)) : yearOf n = year := by
  obtain ⟨hspec₀, hspec₁⟩ := yearOf_spec n
  rcases lt_trichotomy (yearOf n) year with hlt | heq | hgt
  · have hmono := beforeYear_mono (show yearOf n + 1 ≤ year by omega)
    omega
  · exact heq
  · have hmono := beforeYear_mono (show year + 1 ≤ yearOf n by omega)
    omega

/-! ## Months -/

theorem beforeMonth_succ (year : Int) (h₁ : 1 ≤ month) (h₂ : month ≤ 12) :
    beforeMonth year (month + 1) = beforeMonth year month + monthLength year month := by
  unfold monthLength
  interval_cases month <;> cases hleap : isLeap year <;> simp [beforeMonth, hleap]

theorem beforeMonth_thirteen (year : Int) : (beforeMonth year 13 : Int) = yearLength year := by
  unfold yearLength
  cases hleap : isLeap year <;> simp [beforeMonth, hleap]

theorem monthLength_bounds (year : Int) (month : Nat) : 28 ≤ monthLength year month ∧ monthLength year month ≤ 31 := by
  unfold monthLength
  split_ifs <;> omega

theorem beforeMonth_mono : Monotone (beforeMonth year) := by
  refine monotone_nat_of_le_succ ?_
  intro month
  by_cases h₁ : 1 ≤ month
  · by_cases h₂ : month ≤ 12
    · rw [beforeMonth_succ year h₁ h₂]
      exact Nat.le_add_right _ _
    · obtain ⟨k, rfl⟩ : ∃ k, month = k + 13 := ⟨month - 13, by omega⟩
      exact le_refl _
  · obtain rfl : month = 0 := by omega
    exact le_refl _

theorem lastBegun_spec {k m : Nat} (h : k < beforeMonth year (m + 1)) :
    1 ≤ lastBegun year k m ∧ lastBegun year k m ≤ m ∧ beforeMonth year (lastBegun year k m) ≤ k ∧
      k < beforeMonth year (lastBegun year k m + 1) := by
  induction m with
  | zero => exact absurd h (Nat.not_lt_zero k)
  | succ m ih =>
    unfold lastBegun
    by_cases hbegun : beforeMonth year (m + 1) ≤ k
    · rw [if_pos hbegun]
      exact ⟨by omega, le_refl _, hbegun, h⟩
    · rw [if_neg hbegun]
      obtain ⟨h₁, h₂, h₃, h₄⟩ := ih (Nat.lt_of_not_le hbegun)
      exact ⟨h₁, by omega, h₃, h₄⟩

theorem monthOf_spec {k : Nat} (h : (k : Int) < yearLength year) :
    1 ≤ monthOf year k ∧ monthOf year k ≤ 12 ∧ beforeMonth year (monthOf year k) ≤ k ∧
      k < beforeMonth year (monthOf year k + 1) := by
  rw [← beforeMonth_thirteen] at h
  exact lastBegun_spec (Int.ofNat_lt.mp h)

theorem monthOf_unique {k : Nat} (h₀ : beforeMonth year month ≤ k)
    (h₁ : k < beforeMonth year (month + 1)) (hmonth : 1 ≤ month ∧ month ≤ 12) :
    monthOf year k = month := by
  have hlast : beforeMonth year (month + 1) ≤ beforeMonth year 13 := beforeMonth_mono (by omega)
  have hyear := beforeMonth_thirteen year
  obtain ⟨-, -, hspec₀, hspec₁⟩ := @monthOf_spec year k (by omega)
  rcases lt_trichotomy (monthOf year k) month with hlt | heq | hgt
  · have hmono : beforeMonth year (monthOf year k + 1) ≤ beforeMonth year month := beforeMonth_mono (by omega)
    omega
  · exact heq
  · have hmono : beforeMonth year (month + 1) ≤ beforeMonth year (monthOf year k) := beforeMonth_mono (by omega)
    omega

/-! ## Dates -/

def IsDate (year : Int) (month day : Nat) : Prop :=
  1 ≤ month ∧ month ≤ 12 ∧ 1 ≤ day ∧ day ≤ monthLength year month

instance (year : Int) (month day : Nat) : Decidable (IsDate year month day) :=
  inferInstanceAs (Decidable (_ ∧ _ ∧ _ ∧ _))

variable {year year' n : Int} {month month' day day' : Nat}

theorem IsDate.inMonth (h : IsDate year month day) : dayNumber year month 1 ≤ dayNumber year month day ∧
      dayNumber year month day < dayNumber year (month + 1) 1 := by
  obtain ⟨h₁, h₂, h₃, h₄⟩ := h
  have hsucc := beforeMonth_succ year h₁ h₂
  unfold dayNumber
  omega

theorem IsDate.inYear (h : IsDate year month day) :
    beforeYear year ≤ dayNumber year month day ∧ dayNumber year month day < beforeYear (year + 1) := by
  obtain ⟨h₁, h₂, h₃, h₄⟩ := h
  have hsucc := beforeMonth_succ year h₁ h₂
  have hlast : beforeMonth year (month + 1) ≤ beforeMonth year 13 := beforeMonth_mono (by omega)
  have hyear := beforeMonth_thirteen year
  have hnext := beforeYear_succ year
  unfold dayNumber
  omega

theorem yearOf_dayNumber (h : IsDate year month day) : yearOf (dayNumber year month day) = year :=
  yearOf_unique h.inYear.1 h.inYear.2

theorem monthOf_dayNumber (h : IsDate year month day) :
    monthOf year (dayNumber year month day - beforeYear year).toNat = month := by
  have hin := h.inMonth
  obtain ⟨h₁, h₂, h₃, h₄⟩ := h
  have hsucc := beforeMonth_succ year h₁ h₂
  unfold dayNumber at hin ⊢
  refine monthOf_unique ?_ ?_ ⟨h₁, h₂⟩ <;> omega

theorem dayNumber_inj (h : IsDate year month day) (h' : IsDate year' month' day')
    (he : dayNumber year month day = dayNumber year' month' day') :
    year = year' ∧ month = month' ∧ day = day' := by
  have hyear : year = year' := by rw [← yearOf_dayNumber h, he, yearOf_dayNumber h']
  subst hyear
  have hmonth : month = month' := by rw [← monthOf_dayNumber h, he, monthOf_dayNumber h']
  subst hmonth
  unfold dayNumber at he
  exact ⟨rfl, rfl, by omega⟩

/-- The date with a number. -/
def civilOf (n : Int) : Int × Nat × Nat :=
  let year := yearOf n
  let k := (n - beforeYear year).toNat
  let month := monthOf year k
  (year, month, k - beforeMonth year month + 1)

theorem civilOf_spec (n : Int) : IsDate (civilOf n).1 (civilOf n).2.1 (civilOf n).2.2 ∧
    dayNumber (civilOf n).1 (civilOf n).2.1 (civilOf n).2.2 = n := by
  obtain ⟨h₀, h₁⟩ := yearOf_spec n
  have hnext := beforeYear_succ (yearOf n)
  have hk : (((n - beforeYear (yearOf n)).toNat : Nat) : Int) = n - beforeYear (yearOf n) := by omega
  obtain ⟨hm₁, hm₂, hm₃, hm₄⟩ := @monthOf_spec (yearOf n) (n - beforeYear (yearOf n)).toNat (by omega)
  have hsucc := beforeMonth_succ (yearOf n) hm₁ hm₂
  dsimp only [civilOf]
  refine ⟨⟨hm₁, hm₂, by omega, by omega⟩, ?_⟩
  unfold dayNumber
  omega

end Civil
end SyncEngine
