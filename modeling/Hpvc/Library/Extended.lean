import Mathlib.Algebra.Group.Prod
import Mathlib.Algebra.Order.Field.Rat

/-! Exact numbers with the infinities and the invalid value that floating point arithmetic continues
with after a division by zero. -/

/-- A number, an infinity of either sign, or the result of an invalid operation. -/
inductive Extended where
  | finite (value : ℚ)
  | infinite (negative : Bool)
  | nan
  deriving DecidableEq

namespace Extended

def add : Extended → Extended → Extended
  | finite a, finite b => finite (a + b)
  | nan, _ => nan
  | _, nan => nan
  | infinite s, infinite t => if s = t then infinite s else nan
  | infinite s, finite _ => infinite s
  | finite _, infinite t => infinite t

def neg : Extended → Extended
  | finite a => finite (-a)
  | infinite s => infinite !s
  | nan => nan

instance : Zero Extended := ⟨finite 0⟩
instance : Add Extended := ⟨add⟩
instance : Neg Extended := ⟨neg⟩
instance : Sub Extended := ⟨fun a b => a + -b⟩

/-- The quotient of two numbers. A zero is a positive one. -/
def quotient (a b : ℚ) : Extended :=
  if b ≠ 0 then finite (a / b) else if a = 0 then nan else infinite (decide (a < 0))

/-- The product with a positive number. -/
def scale (a : ℚ) : Extended → Extended
  | finite b => finite (a * b)
  | infinite s => infinite s
  | nan => nan

/-- The number, if it is one. -/
def toOption : Extended → Option ℚ
  | finite a => some a
  | _ => none

@[simp] theorem scale_finite (a b : ℚ) : scale a (finite b) = finite (a * b) := rfl

theorem quotient_of_ne (a : ℚ) {b : ℚ} (divisor : b ≠ 0) : quotient a b = finite (a / b) := if_pos divisor

theorem quotient_zero {a : ℚ} (positive : 0 < a) : quotient a 0 = infinite false := by
  rw [quotient,if_neg (by simp),if_neg positive.ne',decide_eq_false (not_lt.mpr positive.le)]

end Extended
