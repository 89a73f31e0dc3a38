import Mathlib.Tactic.IntervalCases
import Mathlib.Logic.Function.Basic

/-! Arrays of 32-bit words as bytes, little end first, and `memmove` on them. An array
is a function from slots; its length is the caller's business, and so are the bytes
behind its end. -/
namespace Bytes

/-- The byte at an offset from the start of the array. -/
def byteOf (slots : Nat → Nat) (k : Nat) : Nat := slots (k / 4) / 256 ^ (k % 4) % 256

def ofBytes (bytes : Nat → Nat) (j : Nat) : Nat :=
  bytes (4 * j + 0) + 256 * bytes (4 * j + 1) + 65536 * bytes (4 * j + 2) +
    16777216 * bytes (4 * j + 3)

/-- `memmove`: the source is read before anything is written. -/
def memmove (dst src len : Nat) (bytes : Nat → Nat) (k : Nat) : Nat :=
  if dst ≤ k ∧ k < dst + len then bytes (src + (k - dst)) else bytes k

/-- `memmove(&slots[i], &slots[i + 1], len)` -/
def pullBytes (i len : Nat) (slots : Nat → Nat) : Nat → Nat :=
  ofBytes (memmove (4 * i) (4 * (i + 1)) len (byteOf slots))

/-- The `k` low bytes of one word in another. -/
def mix (k high low : Nat) : Nat := high / 256 ^ k * 256 ^ k + low % 256 ^ k

@[simp] theorem mix_zero (high low : Nat) : mix 0 high low = high := by simp [mix,Nat.mod_one]

theorem mix_four {high low : Nat} (fits_high : high < 2 ^ 32) (fits_low : low < 2 ^ 32) :
    mix 4 high low = low := by
  simp only [mix]
  omega

theorem byteOf_slot (slots : Nat → Nat) (j : Nat) {r : Nat} (inside : r < 4) :
    byteOf slots (4 * j + r) = slots j / 256 ^ r % 256 := by
  have slot : (4 * j + r) / 4 = j := by omega
  have rest : (4 * j + r) % 4 = r := by omega
  rw [byteOf,slot,rest]

/-- A byte of the result comes from the next slot while it is among the moved ones. -/
theorem memmove_slot (slots : Nat → Nat) (i len j : Nat) (behind : i ≤ j) {r : Nat} (inside : r < 4) :
    memmove (4 * i) (4 * (i + 1)) len (byteOf slots) (4 * j + r) =
      if r < len - 4 * (j - i) then slots (j + 1) / 256 ^ r % 256 else slots j / 256 ^ r % 256 := by
  have source : 4 * (i + 1) + (4 * j + r - 4 * i) = 4 * (j + 1) + r := by omega
  rw [memmove,source,byteOf_slot slots (j + 1) inside,byteOf_slot slots j inside]
  congr 1
  apply propext
  omega

/-- Slots in front of the moved bytes keep their words. -/
theorem pullBytes_before (slots : Nat → Nat) (i len : Nat) {j : Nat} (before : j < i)
    (fits : slots j < 2 ^ 32) : pullBytes i len slots j = slots j := by
  have kept (r : Nat) (inside : r < 4) : memmove (4 * i) (4 * (i + 1)) len (byteOf slots) (4 * j + r) =
      slots j / 256 ^ r % 256 := by
    rw [memmove,if_neg (by omega),byteOf_slot slots j inside]
  simp only [pullBytes,ofBytes,kept 0 (by omega),kept 1 (by omega),kept 2 (by omega),kept 3 (by omega)]
  omega

/-- From there on, each slot takes as many bytes of the next one as were moved into it. -/
theorem pullBytes_slot (slots : Nat → Nat) (i len : Nat) {j : Nat} (behind : i ≤ j)
    (fits : slots j < 2 ^ 32) :
    pullBytes i len slots j = mix (min 4 (len - 4 * (j - i))) (slots j) (slots (j + 1)) := by
  have byte (r : Nat) (inside : r < 4) := memmove_slot slots i len j behind inside
  simp only [pullBytes,ofBytes,byte 0 (by omega),byte 1 (by omega),byte 2 (by omega),byte 3 (by omega)]
  generalize len - 4 * (j - i) = moved
  rcases Nat.lt_or_ge moved 4 with few | all
  · rw [Nat.min_eq_right few.le]
    interval_cases moved <;> simp [mix] <;> omega
  · rw [Nat.min_eq_left all,if_pos (by omega),if_pos (by omega),if_pos (by omega),if_pos (by omega)]
    simp only [mix]
    omega

end Bytes
