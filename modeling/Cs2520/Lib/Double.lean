import Mathlib

/-
  Doubles: the numbers with 53 binary digits, to which every
  operation rounds, and what else a variable may hold.

  The exponents of the numbers have no bounds here, and there
  is one zero.

  Main declarations:
    * `roundEven`
    * `roundDouble`
    * `Double`
    * `Double.num_lt_num`
-/

------------------------------------------------------------
-- Rounding
------------------------------------------------------------

namespace Cs2520

namespace Lib

/- A power of two with any exponent. -/
def twoPow
    (e : Int) : ℚ :=
  if 0 ≤ e then ((2 ^ e.toNat : Nat) : ℚ)
  else 1 / ((2 ^ (-e).toNat : Nat) : ℚ)

/- The exponent of the binade of a positive number. -/
def binade
    (q : ℚ) : Int :=
  let e : Int := (q.num.natAbs.log2 : Int) - q.den.log2
  if q < twoPow e then e - 1 else e

/- The nearest integer, of two the even one. -/
def roundEven
    (q : ℚ) : Int :=
  let low := q.floor
  if q - low < 1 / 2 then low
  else if 1 / 2 < q - low then low + 1
  else if low % 2 = 0 then low
  else low + 1

/- The nearest number with 53 binary digits. -/
def roundDouble
    (q : ℚ) : ℚ :=
  if q = 0 then
    0
  else
    let unit := twoPow (binade |q| - 52)
    roundEven (q / unit) * unit

end Lib

end Cs2520

------------------------------------------------------------
-- Variables
------------------------------------------------------------

namespace Cs2520

namespace Lib

/- What a variable of type `double` holds. -/
inductive Double where
| nan : Double
| negInf : Double
| num (q : ℚ) : Double
| posInf : Double
deriving DecidableEq

namespace Double

/- The comparison `<`, which is false for a NaN. -/
protected def lt : Double → Double → Prop
  | .num x, .num y => x < y
  | .negInf, .num _ => True
  | .negInf, .posInf => True
  | .num _, .posInf => True
  | _, _ => False

instance : LT Double :=
  ⟨Double.lt⟩

instance (x y : Double) : Decidable (x < y) := by
  change Decidable (Double.lt x y)
  cases x <;> cases y <;> unfold Double.lt <;> infer_instance

@[simp] theorem num_lt_num
    (x y : ℚ) :
    num x < num y ↔ x < y := Iff.rfl

end Double

end Lib

end Cs2520
