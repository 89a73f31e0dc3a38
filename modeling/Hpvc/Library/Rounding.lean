import Mathlib.Data.Int.Log
import Mathlib.Data.Rat.Floor
import Mathlib.Tactic.FieldSimp
import Mathlib.Tactic.Linarith
import Mathlib.Tactic.Positivity

/-! Rounding to numbers with a fixed count of significant bits, to the nearest and of two to the even one. The
numbers themselves are rationals. -/
namespace Rounding

/-- The nearest integer, of two the even one. -/
def toEven (x : ℚ) : Int :=
  if x - ⌊x⌋ < 1 / 2 ∨ (x - ⌊x⌋ = 1 / 2 ∧ ⌊x⌋ % 2 = 0) then ⌊x⌋ else ⌊x⌋ + 1

/-- The exponent of the last place of numbers about `x`. -/
def exponent (bits least : Int) (x : ℚ) : Int := max (Int.log 2 |x| - (bits - 1)) least

/-- With so many significant bits, and no last place below the least one. -/
def nearest (bits least : Int) (x : ℚ) : ℚ :=
  toEven (x / 2 ^ exponent bits least x) * 2 ^ exponent bits least x

/-- The `float` of a number. -/
def single : ℚ → ℚ := nearest 24 (-149)

/-- The `double` of a number. -/
def double : ℚ → ℚ := nearest 53 (-1074)

example : single (1 / 10) = 13421773 / 134217728 := by decide +kernel

theorem toEven_cases (x : ℚ) : toEven x = ⌊x⌋ ∨ (toEven x = ⌊x⌋ + 1 ∧ 1 / 2 ≤ x - ⌊x⌋) := by
  unfold toEven
  split
  next => exact .inl rfl
  next up =>
    push Not at up
    exact .inr ⟨rfl, up.1⟩

/-- What is at least an integer is rounded to no less. -/
theorem le_toEven {x : ℚ} {n : Int} (below : n ≤ x) : n ≤ toEven x := by
  have floor := Int.le_floor.mpr below
  rcases toEven_cases x with is | ⟨is, _⟩ <;> omega

theorem toEven_le {x : ℚ} {n : Int} (below : x < n + 1 / 2) : toEven x ≤ n := by
  have floor := Int.floor_le x
  rcases toEven_cases x with is | ⟨is, half⟩
  · rw [is]
    have : (⌊x⌋ : ℚ) < n + 1 := by linarith
    exact Int.lt_add_one_iff.mp (by exact_mod_cast this)
  · rw [is]
    have : (⌊x⌋ : ℚ) < n := by linarith
    have : ⌊x⌋ < n := by exact_mod_cast this
    omega

theorem toEven_le_of_le {x : ℚ} {n : Int} (below : x ≤ n) : toEven x ≤ n :=
  toEven_le (by linarith)

/-- From the middle after an odd number on, it is rounded up. -/
theorem lt_toEven_of_odd {x : ℚ} {n : Int} (odd : n % 2 = 1) (above : n + 1 / 2 ≤ x) : n < toEven x := by
  have floor : n ≤ ⌊x⌋ := Int.le_floor.mpr (by linarith)
  rcases floor.eq_or_lt with same | more
  · unfold toEven
    rw [← same,if_neg]
    · omega
    · rintro (less | ⟨_, even⟩)
      · linarith
      · omega
  · rcases toEven_cases x with is | ⟨is, _⟩ <;> omega

theorem abs_toEven_sub_le (x : ℚ) : |(toEven x : ℚ) - x| ≤ 1 / 2 := by
  have low := Int.floor_le x
  have high := Int.lt_floor_add_one x
  rw [abs_le]
  unfold toEven
  split
  next down =>
    have : x - ⌊x⌋ ≤ 1 / 2 := by
      rcases down with less | ⟨half, _⟩ <;> linarith
    constructor <;> linarith
  next up =>
    push Not at up
    push_cast
    constructor <;> linarith [up.1]

section Nearest
variable {bits least : Int}

theorem pow_pos' (k : Int) : (0 : ℚ) < 2 ^ k := zpow_pos (by norm_num) k

theorem log_eq {x : ℚ} {k : Int} (low : 2 ^ k ≤ x) (high : x < 2 ^ (k + 1)) : Int.log 2 |x| = k := by
  have positive : 0 < x := lt_of_lt_of_le (pow_pos' k) low
  rw [abs_of_pos positive]
  have above : k ≤ Int.log 2 x := (Int.zpow_le_iff_le_log (by decide) positive).mp (by exact_mod_cast low)
  have below : Int.log 2 x < k + 1 := (Int.lt_zpow_iff_log_lt (by decide) positive).mp (by exact_mod_cast high)
  omega

theorem log_le {x : ℚ} {k : Int} (positive : 0 < x) (low : 2 ^ k ≤ x) : k ≤ Int.log 2 |x| := by
  rw [abs_of_pos positive]
  exact (Int.zpow_le_iff_le_log (by decide) positive).mp (by exact_mod_cast low)

theorem pow_log_le {x : ℚ} (positive : 0 < x) : (2 : ℚ) ^ Int.log 2 |x| ≤ x := by
  rw [abs_of_pos positive]
  exact_mod_cast Int.zpow_log_le_self (b := 2) (by decide) positive

/-- A power of two is a whole number of places, if it is no less than one. -/
theorem pow_multiple {k e : Int} (fine : e ≤ k) : ∃ z : Int, (2 : ℚ) ^ k = z * 2 ^ e := by
  obtain ⟨n, rfl⟩ : ∃ n : Nat, k = e + n := ⟨(k - e).toNat, by omega⟩
  refine ⟨2 ^ n, ?_⟩
  rw [zpow_add₀ (by norm_num),zpow_natCast,mul_comm]
  push_cast
  rfl

/-- A whole number of places stays a bound. -/
theorem le_nearest {x : ℚ} {z : Int} (below : z * 2 ^ exponent bits least x ≤ x) :
    z * 2 ^ exponent bits least x ≤ nearest bits least x := by
  have place := pow_pos' (exponent bits least x)
  have rounded := le_toEven ((le_div_iff₀ place).mpr below)
  unfold nearest
  gcongr

theorem nearest_le {x : ℚ} {z : Int} (above : x ≤ z * 2 ^ exponent bits least x) :
    nearest bits least x ≤ z * 2 ^ exponent bits least x := by
  have place := pow_pos' (exponent bits least x)
  have rounded := toEven_le_of_le ((div_le_iff₀ place).mpr above)
  unfold nearest
  gcongr

theorem nearest_nonneg {x : ℚ} (nonneg : 0 ≤ x) : 0 ≤ nearest bits least x := by
  have bound := @le_nearest bits least x 0 (by simpa using nonneg)
  simpa using bound

theorem nearest_nonpos {x : ℚ} (nonpos : x ≤ 0) : nearest bits least x ≤ 0 := by
  have bound := @nearest_le bits least x 0 (by simpa using nonpos)
  simpa using bound

/-- A power of two stays a bound from below. -/
theorem pow_le_nearest {x : ℚ} {k : Int} (normal : least ≤ k) (wide : 1 ≤ bits) (below : 2 ^ k ≤ x) :
    2 ^ k ≤ nearest bits least x := by
  have positive : 0 < x := lt_of_lt_of_le (pow_pos' k) below
  have log := log_le positive below
  obtain ⟨z, is⟩ : ∃ z : Int, (2 : ℚ) ^ Int.log 2 |x| = z * 2 ^ exponent bits least x :=
    pow_multiple (by unfold exponent; omega)
  have bound := @le_nearest bits least x z (is ▸ pow_log_le positive)
  rw [← is] at bound
  exact (zpow_le_zpow_right₀ (by norm_num) log).trans bound

/-- And from above. -/
theorem nearest_le_pow {x : ℚ} {k : Int} (normal : least ≤ k) (wide : 1 ≤ bits) (positive : 0 < x)
    (above : x ≤ 2 ^ k) : nearest bits least x ≤ 2 ^ k := by
  have log : Int.log 2 |x| ≤ k :=
    (zpow_le_zpow_iff_right₀ (by norm_num : (1 : ℚ) < 2)).mp ((pow_log_le positive).trans above)
  obtain ⟨z, is⟩ : ∃ z : Int, (2 : ℚ) ^ k = z * 2 ^ exponent bits least x :=
    pow_multiple (by unfold exponent; omega)
  rw [is]
  exact nearest_le (is ▸ above)

theorem abs_nearest_sub_le (x : ℚ) : |nearest bits least x - x| ≤ 2 ^ exponent bits least x / 2 := by
  have place := pow_pos' (exponent bits least x)
  have rounded := abs_toEven_sub_le (x / 2 ^ exponent bits least x)
  have scaled : nearest bits least x - x =
      (toEven (x / 2 ^ exponent bits least x) - x / 2 ^ exponent bits least x) * 2 ^ exponent bits least x := by
    rw [nearest,sub_mul,div_mul_cancel₀ _ place.ne']
  rw [scaled,abs_mul,abs_of_pos place]
  linarith [mul_le_mul_of_nonneg_right rounded place.le]

/-- The opposite of a rounded number is one. -/
theorem neg_le_nearest {x : ℚ} (rounded : nearest bits least x = x) : -x ≤ nearest bits least (-x) := by
  have same : exponent bits least (-x) = exponent bits least x := by rw [exponent,exponent,abs_neg]
  have is : -x = (-toEven (x / 2 ^ exponent bits least x) : Int) * 2 ^ exponent bits least (-x) := by
    rw [same]
    conv_lhs => rw [← rounded,nearest]
    push_cast
    ring
  have bound := @le_nearest bits least (-x) _ is.ge
  rwa [← is] at bound

/-- The error is small beside the number. -/
theorem abs_nearest_sub_le_mul {x : ℚ} (positive : 0 < x) (normal : 2 ^ (least + bits - 1) ≤ x) :
    |nearest bits least x - x| ≤ x * 2 ^ (-bits) := by
  have log := log_le positive normal
  have place : exponent bits least x = Int.log 2 |x| + 1 + -bits := by
    unfold exponent
    omega
  have small := @abs_nearest_sub_le bits least x
  rw [place,zpow_add₀ (by norm_num),zpow_add₀ (by norm_num),zpow_one] at small
  have bound := mul_le_mul_of_nonneg_right (pow_log_le positive) (pow_pos' (-bits)).le
  linarith

end Nearest

/-- A number with the arithmetic of `double`: every result is rounded. -/
structure Double where
  value : ℚ

namespace Double

instance : Zero Double := ⟨⟨0⟩⟩
instance : IntCast Double := ⟨fun z => ⟨double z⟩⟩
instance : Add Double := ⟨fun a b => ⟨double (a.value + b.value)⟩⟩
instance : Sub Double := ⟨fun a b => ⟨double (a.value - b.value)⟩⟩
instance : Div Double := ⟨fun a b => ⟨double (a.value / b.value)⟩⟩
instance : LT Double := ⟨fun a b => a.value < b.value⟩
instance : LE Double := ⟨fun a b => a.value ≤ b.value⟩
instance : DecidableLT Double := fun a b => inferInstanceAs (Decidable (a.value < b.value))
instance : DecidableLE Double := fun a b => inferInstanceAs (Decidable (a.value ≤ b.value))

end Double

end Rounding
