import Mathlib

/-!
# Instants and spans

`UtcDateTime` is an instant to the nanosecond.  The calendar type behind it runs
from the first instant of the year -9999 to the last of the year 9999, which is
7304484 days, and an instant is counted from the start of that range.  Adding a
span past the end of the range yields nothing.
-/

namespace SyncEngine

def second : Nat := 1000000000

namespace UtcDateTime

def rangeNanos : Nat := 7304484 * 86400 * 1000000000

end UtcDateTime

structure UtcDateTime where
  nanos : Nat
  inRange : nanos < UtcDateTime.rangeNanos
deriving DecidableEq

namespace UtcDateTime

theorem nanos_injective : Function.Injective UtcDateTime.nanos := by
  rintro ⟨a, _⟩ ⟨b, _⟩ h
  cases h
  rfl

instance : LinearOrder UtcDateTime := LinearOrder.lift' UtcDateTime.nanos nanos_injective

theorem le_def {a b : UtcDateTime} : a ≤ b ↔ a.nanos ≤ b.nanos := Iff.rfl

theorem lt_def {a b : UtcDateTime} : a < b ↔ a.nanos < b.nanos := Iff.rfl

/-- The instant `span` nanoseconds later, when it is representable. -/
def checkedAdd (t : UtcDateTime) (span : Nat) : Option UtcDateTime :=
  if h : t.nanos + span < rangeNanos then some ⟨t.nanos + span, h⟩ else none

end UtcDateTime

/-- A calendar duration, as a provider states one: days and seconds apart. -/
structure Duration where
  days : Nat
  seconds : Nat
  nanoseconds : Nat
  subsecond : nanoseconds < 1000000000
deriving DecidableEq

theorem Duration.subsecond_zero : 0 < 1000000000 := by decide

def Duration.zero : Duration := ⟨0, 0, 0, subsecond_zero⟩

/-- Whether a lease is held and has not expired at `now`. -/
def isLive (expiry : Option UtcDateTime) (now : UtcDateTime) : Bool :=
  expiry.any fun e => decide (now < e)


end SyncEngine
