import Mathlib.Tactic.Common

/-
  `struct timeval` with its macros, and clock readings.

  Main declarations:
    * `Timeval`
    * `timeradd`
    * `timersub`
    * `Normal`
    * `micros_timeradd`
    * `Normal.micros_le_iff`
    * `Clock`
-/

------------------------------------------------------------
-- Times
------------------------------------------------------------

namespace Cs2520

namespace Lib

structure Timeval where
  sec : Int
  usec : Int
deriving DecidableEq

namespace Timeval

/- `{0, 0}` -/
def zero : Timeval :=
  { sec := 0, usec := 0 }

/- Add, with one carry from the microseconds. -/
def timeradd
    (a b : Timeval) : Timeval :=
  if 1000000 ≤ a.usec + b.usec then
    { sec := a.sec + b.sec + 1
      usec := a.usec + b.usec - 1000000 }
  else
    { sec := a.sec + b.sec
      usec := a.usec + b.usec }

/- Subtract, with one borrow from the seconds. -/
def timersub
    (a b : Timeval) : Timeval :=
  if a.usec - b.usec < 0 then
    { sec := a.sec - b.sec - 1
      usec := a.usec - b.usec + 1000000 }
  else
    { sec := a.sec - b.sec
      usec := a.usec - b.usec }

/- The time in microseconds. -/
def micros
    (t : Timeval) : Int :=
  t.sec * 1000000 + t.usec

/- The microseconds are a fraction of a second. -/
structure Normal
    (t : Timeval) : Prop where
  nonneg : 0 ≤ t.usec
  lt : t.usec < 1000000

theorem normal_iff
    (t : Timeval) :
    t.Normal ↔ 0 ≤ t.usec ∧ t.usec < 1000000 :=
  ⟨fun h => ⟨h.nonneg, h.lt⟩, fun h => ⟨h.1, h.2⟩⟩

instance
    (t : Timeval) :
    Decidable t.Normal :=
  decidable_of_iff' _ t.normal_iff

theorem normal_zero :
    zero.Normal := by
  decide

theorem micros_timeradd
    (a b : Timeval) :
    (timeradd a b).micros = a.micros + b.micros := by
  unfold timeradd
  split
  · simp only [micros]
    omega
  · simp only [micros]
    omega

theorem micros_timersub
    (a b : Timeval) :
    (timersub a b).micros = a.micros - b.micros := by
  unfold timersub
  split
  · simp only [micros]
    omega
  · simp only [micros]
    omega

theorem Normal.timeradd
    {a b : Timeval}
    (ha : a.Normal)
    (hb : b.Normal) :
    (timeradd a b).Normal := by
  have hLow := ha.nonneg
  have hHigh := ha.lt
  have hLow' := hb.nonneg
  have hHigh' := hb.lt
  unfold Timeval.timeradd
  split
  · constructor
    · dsimp only
      omega
    · dsimp only
      omega
  · constructor
    · dsimp only
      omega
    · dsimp only
      omega

theorem Normal.timersub
    {a b : Timeval}
    (ha : a.Normal)
    (hb : b.Normal) :
    (timersub a b).Normal := by
  have hLow := ha.nonneg
  have hHigh := ha.lt
  have hLow' := hb.nonneg
  have hHigh' := hb.lt
  unfold Timeval.timersub
  split
  · constructor
    · dsimp only
      omega
    · dsimp only
      omega
  · constructor
    · dsimp only
      omega
    · dsimp only
      omega

/- Normal times are ordered as pairs. -/
theorem Normal.micros_le_iff
    {a b : Timeval}
    (ha : a.Normal)
    (hb : b.Normal) :
    a.micros ≤ b.micros ↔
      a.sec < b.sec ∨ a.sec = b.sec ∧ a.usec ≤ b.usec := by
  have hLow := ha.nonneg
  have hHigh := ha.lt
  have hLow' := hb.nonneg
  have hHigh' := hb.lt
  simp only [micros]
  omega

end Timeval

/- What `gettimeofday` returns: a time after 1970. -/
structure Clock extends Timeval where
  after : 0 < sec
  usec_nonneg : 0 ≤ usec
  usec_lt : usec < 1000000

theorem Clock.normal
    (c : Clock) :
    c.toTimeval.Normal :=
  ⟨c.usec_nonneg, c.usec_lt⟩

/- The reading at a given full second. -/
def Clock.ofSeconds
    (sec : Nat) : Clock where
  sec := sec + 1
  usec := 0
  after := by omega
  usec_nonneg := Int.le_refl 0
  usec_lt := by decide

end Lib

end Cs2520
