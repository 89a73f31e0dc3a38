import Mathlib.Data.Rat.Floor
import Mathlib.Algebra.Order.Floor.Ring
import Mathlib.Tactic.FieldSimp
import Mathlib.Tactic.Ring
import Mathlib.Tactic.NormNum
import Mathlib.Tactic.Linarith

/-! Decimal text as the C library prints and reads it: `%u` and `%d`, `%f` with its
six decimals, and the readers `sscanf("%d")`, `atoi` and `atof`. Reals are exact
rationals; exponents, hexadecimal and the words for infinity are not read. -/
namespace Decimal

/-- White space of the C locale: the blank and the codes 9 to 13. -/
def isSpace (c : Char) : Bool := c.toNat == 32 || (9 ≤ c.toNat && c.toNat ≤ 13)

/-- An optional sign in front of a number; `true` is a minus. -/
def takeSign : List Char → Bool × List Char
  | '-' :: rest => (true, rest)
  | '+' :: rest => (false, rest)
  | rest => (false, rest)

def value (ds : List Char) : Nat := Nat.ofDigitChars 10 ds 0

/-- `sscanf("%d")`: blanks, a sign, at least one digit. The rest is left unread. -/
def scanInt (text : List Char) : Option (Int × List Char) :=
  let signed := takeSign (text.dropWhile isSpace)
  let ds := signed.2.takeWhile Char.isDigit
  if ds = [] then none
  else some (if signed.1 then -(value ds : Int) else value ds, signed.2.dropWhile Char.isDigit)

/-- `atoi` is 0 where no number is found. -/
def atoi (text : List Char) : Int := ((scanInt text).map Prod.fst).getD 0

/-- `%u`, and `%d` of a number that is not negative. -/
def formatU (n : Nat) : List Char := Nat.toDigits 10 n

/-- `%d` -/
def formatD (z : Int) : List Char := if z < 0 then '-' :: formatU z.natAbs else formatU z.natAbs

/-- Round to the nearest integer, a tie to the even one. -/
def roundHalfEven (q : ℚ) : Int :=
  let low := ⌊q⌋
  if q - low < 1 / 2 then low
  else if 1 / 2 < q - low then low + 1
  else if low % 2 = 0 then low else low + 1

/-- Six digits with leading zeros. -/
def sixDigits (n : Nat) : List Char := List.replicate (6 - (formatU n).length) '0' ++ formatU n

/-- `%f`: the correctly rounded multiple of a millionth, with all six decimals. -/
def formatF (x : ℚ) : List Char :=
  let micro := (roundHalfEven (|x| * 1000000)).toNat
  (if x < 0 then ['-'] else []) ++ formatU (micro / 1000000) ++ '.' :: sixDigits (micro % 1000000)

/-- The digits after a decimal point, if there is one. -/
def takeFraction : List Char → List Char
  | '.' :: rest => rest.takeWhile Char.isDigit
  | _ => []

/-- `atof` on decimal notation. -/
def atof (text : List Char) : ℚ :=
  let signed := takeSign (text.dropWhile isSpace)
  let whole := signed.2.takeWhile Char.isDigit
  let fraction := takeFraction (signed.2.dropWhile Char.isDigit)
  let magnitude : ℚ := value whole + value fraction / 10 ^ fraction.length
  if signed.1 then -magnitude else magnitude

theorem formatU_ne_nil (n : Nat) : formatU n ≠ [] := Nat.toDigits_ne_nil

theorem formatU_digit {n : Nat} {c : Char} (member : c ∈ formatU n) : c.isDigit = true :=
  Nat.isDigit_of_mem_toDigits (by decide) (by decide) member

@[simp] theorem value_formatU (n : Nat) : value (formatU n) = n := Nat.ofDigitChars_ten_toDigits

theorem digit_code {c : Char} (digit : c.isDigit = true) : 48 ≤ c.toNat ∧ c.toNat ≤ 57 := by
  simp only [Char.isDigit,ge_iff_le,Bool.and_eq_true,decide_eq_true_eq] at digit
  exact ⟨digit.1, digit.2⟩

theorem digit_not_space {c : Char} (digit : c.isDigit = true) : isSpace c = false := by
  have code := digit_code digit
  simp only [isSpace,Bool.or_eq_false_iff,beq_eq_false_iff_ne,Bool.and_eq_false_iff,
    decide_eq_false_iff_not]
  omega

/-- Text that starts with a digit has no blanks to skip and no sign. -/
theorem takeSign_digit {c : Char} (digit : c.isDigit = true) (rest : List Char) :
    takeSign ((c :: rest).dropWhile isSpace) = (false, c :: rest) := by
  rw [List.dropWhile_cons_of_neg (by simp [digit_not_space digit])]
  unfold takeSign
  split
  next h => cases h; simp [Char.isDigit] at digit
  next h => cases h; simp [Char.isDigit] at digit
  next => rfl

theorem takeWhile_digits {ds rest : List Char} (all : ∀ c ∈ ds, c.isDigit = true)
    (stop : ∀ c, rest.head? = some c → c.isDigit = false) :
    (ds ++ rest).takeWhile Char.isDigit = ds ∧ (ds ++ rest).dropWhile Char.isDigit = rest := by
  have ends : rest.takeWhile Char.isDigit = [] ∧ rest.dropWhile Char.isDigit = rest := by
    cases rest with
    | nil => simp
    | cons c tail => simp [stop c rfl]
  rw [List.takeWhile_append_of_pos all,List.dropWhile_append_of_pos all,ends.1,ends.2]
  simp

theorem takeSign_formatU (n : Nat) (rest : List Char) :
    takeSign ((formatU n ++ rest).dropWhile isSpace) = (false, formatU n ++ rest) := by
  cases h : formatU n with
  | nil => exact absurd h (formatU_ne_nil n)
  | cons c tail => exact takeSign_digit (formatU_digit (h ▸ List.mem_cons_self)) _

/-- What `%u` printed is read back, up to the first character that is no digit. -/
theorem scanInt_formatU (n : Nat) (rest : List Char)
    (stop : ∀ c, rest.head? = some c → c.isDigit = false) :
    scanInt (formatU n ++ rest) = some ((n : Int), rest) := by
  have split := takeWhile_digits (fun c => formatU_digit (n := n)) stop
  simp [scanInt,takeSign_formatU,split.1,split.2,formatU_ne_nil]

@[simp] theorem atoi_formatU (n : Nat) : atoi (formatU n) = n := by
  have read := scanInt_formatU n [] (by simp)
  rw [List.append_nil] at read
  simp [atoi,read]

@[simp] theorem atoi_formatD (z : Int) : atoi (formatD z) = z := by
  have digits : ∀ c ∈ formatU z.natAbs, c.isDigit = true := fun _ => formatU_digit
  have read := @takeWhile_digits _ [] digits (by simp)
  rw [List.append_nil] at read
  unfold formatD
  split
  next negative =>
    have sign : takeSign (('-' :: formatU z.natAbs).dropWhile isSpace) = (true, formatU z.natAbs) := rfl
    simp only [atoi,scanInt,sign,read.1,read.2,formatU_ne_nil,if_false,if_true,value_formatU,Option.map_some,
      Option.getD_some]
    omega
  next =>
    rw [atoi_formatU]
    omega

theorem sixDigits_digit {n : Nat} {c : Char} (member : c ∈ sixDigits n) : c.isDigit = true := by
  rcases List.mem_append.mp member with zero | digit
  · rw [(List.mem_replicate.mp zero).2]; rfl
  · exact formatU_digit digit

theorem sixDigits_length {n : Nat} (bound : n < 1000000) : (sixDigits n).length = 6 := by
  have short : (formatU n).length ≤ 6 :=
    (Nat.length_toDigits_le_iff (by decide) (by decide)).mpr bound
  simp [sixDigits]
  omega

@[simp] theorem value_sixDigits (n : Nat) : value (sixDigits n) = n := by
  simp only [value,sixDigits,Nat.ofDigitChars_append,Nat.ofDigitChars_replicate_zero,Nat.mul_zero]
  exact value_formatU n

theorem roundHalfEven_int (k : Int) : roundHalfEven (k : ℚ) = k := by
  simp [roundHalfEven]

theorem roundHalfEven_bounds (q : ℚ) : ⌊q⌋ ≤ roundHalfEven q ∧ roundHalfEven q ≤ ⌊q⌋ + 1 := by
  simp only [roundHalfEven]
  split
  · omega
  · split
    · omega
    · split <;> omega

theorem roundHalfEven_near (q : ℚ) : |(roundHalfEven q : ℚ) - q| ≤ 1 / 2 := by
  have below := Int.floor_le q
  have above := Int.lt_floor_add_one q
  simp only [roundHalfEven]
  rw [abs_le]
  split
  · constructor <;> linarith
  · split
    · push_cast
      constructor <;> linarith
    · split
      · constructor <;> linarith
      · push_cast
        constructor <;> linarith

theorem roundHalfEven_nonneg {q : ℚ} (h : 0 ≤ q) : 0 ≤ roundHalfEven q :=
  (Int.floor_nonneg.mpr h).trans (roundHalfEven_bounds q).1

/-- Rounding never passes an integer bound. -/
theorem roundHalfEven_le {q : ℚ} {k : Int} (h : q ≤ k) : roundHalfEven q ≤ k := by
  rcases h.lt_or_eq with below | equal
  · have := Int.floor_lt.mpr below
    have := (roundHalfEven_bounds q).2
    omega
  · rw [equal,roundHalfEven_int]

theorem le_roundHalfEven {q : ℚ} {k : Int} (h : (k : ℚ) ≤ q) : k ≤ roundHalfEven q :=
  (Int.le_floor.mpr h).trans (roundHalfEven_bounds q).1

/-- `atof` of what `%f` printed is the number rounded to six decimals. -/
theorem atof_formatF {x : ℚ} (h : 0 ≤ x) :
    atof (formatF x) = roundHalfEven (x * 1000000) / 1000000 := by
  have nonneg : 0 ≤ roundHalfEven (x * 1000000) := roundHalfEven_nonneg (by positivity)
  obtain ⟨micro, hm⟩ := Int.eq_ofNat_of_zero_le nonneg
  have text : formatF x = formatU (micro / 1000000) ++ '.' :: sixDigits (micro % 1000000) := by
    simp [formatF,abs_of_nonneg h,not_lt.mpr h,hm]
  have point : ∀ c, ('.' :: sixDigits (micro % 1000000)).head? = some c → c.isDigit = false := by
    intro c hc; cases hc; rfl
  have split := takeWhile_digits (fun c => formatU_digit (n := micro / 1000000)) point
  have tail : (sixDigits (micro % 1000000)).takeWhile Char.isDigit = sixDigits (micro % 1000000) := by
    have := (takeWhile_digits (fun c => sixDigits_digit (n := micro % 1000000))
      (fun c (none : [].head? = some c) => by simp at none)).1
    simpa using this
  have parts : (micro : ℚ) = 1000000 * (micro / 1000000 : Nat) + (micro % 1000000 : Nat) := by
    exact_mod_cast (Nat.div_add_mod micro 1000000).symm
  simp only [atof,text,takeSign_formatU,split.1,split.2,takeFraction,tail,value_formatU,
    value_sixDigits,sixDigits_length (Nat.mod_lt micro (by decide : 0 < 1000000)),hm]
  rw [if_neg (by decide),Int.cast_natCast,parts]
  ring

end Decimal
