import Mathlib.Logic.Function.Basic
import Mathlib.Data.List.Basic

/-! An array whose first `count` slots are in use. Slots past the count hold
whatever was written there last and are never part of the live list. -/
namespace SlotArray

/-- The entries in use. -/
def live (slots : Nat → α) (count : Nat) : List α := (List.range count).map slots

/-- The loop `for (i = first; i < first + len; i++) a[i] = a[i + 1]`. -/
def shiftDown (first len : Nat) (slots : Nat → α) : Nat → α :=
  (List.range' first len).foldl (fun a i => Function.update a i (a (i + 1))) slots

@[simp] theorem live_length (slots : Nat → α) (count : Nat) : (live slots count).length = count := by
  simp [live]

@[simp] theorem live_zero (slots : Nat → α) : live slots 0 = [] := rfl

theorem live_get (slots : Nat → α) {count i : Nat} (bound : i < count) :
    (live slots count)[i]? = some (slots i) := by
  simp [live,bound]

theorem live_congr {slots other : Nat → α} {count : Nat} (same : ∀ i < count, slots i = other i) :
    live slots count = live other count :=
  List.map_congr_left fun i member => same i (List.mem_range.mp member)

theorem mem_live {slots : Nat → α} {count : Nat} {v : α} :
    v ∈ live slots count ↔ ∃ i < count, slots i = v := by
  simp [live]

/-- Writing the first free slot and counting it appends. -/
theorem live_push (slots : Nat → α) (count : Nat) (v : α) :
    live (Function.update slots count v) (count + 1) = live slots count ++ [v] := by
  have rest : live (Function.update slots count v) count = live slots count :=
    live_congr fun i bound => Function.update_of_ne (Nat.ne_of_lt bound) _ _
  simp only [live] at rest ⊢
  simp [List.range_succ,rest]

theorem live_add (slots : Nat → α) (first more : Nat) :
    live slots (first + more) = live slots first ++ live (fun j => slots (first + j)) more := by
  simp [live,List.range_add]

theorem shiftDown_apply (first len : Nat) (slots : Nat → α) (j : Nat) :
    shiftDown first len slots j = if first ≤ j ∧ j < first + len then slots (j + 1) else slots j := by
  induction len generalizing j with
  | zero => rw [if_neg (by omega)]; rfl
  | succ len ih =>
    have last : shiftDown first (len + 1) slots = Function.update (shiftDown first len slots)
        (first + len) (shiftDown first len slots (first + len + 1)) := by
      simp [shiftDown,List.range'_concat]
    rw [last]
    by_cases same : j = first + len
    · subst j
      rw [Function.update_self,ih,if_neg (by omega),if_pos (by omega)]
    · rw [Function.update_of_ne same,ih]
      have : (first ≤ j ∧ j < first + (len + 1)) ↔ (first ≤ j ∧ j < first + len) := by omega
      simp [this]

/-- Shifting everything above `index` down by one deletes that entry. -/
theorem live_shiftDown (slots : Nat → α) {index count : Nat} (bound : index < count) :
    live (shiftDown index (count - 1 - index) slots) (count - 1) =
      (live slots count).eraseIdx index := by
  apply List.ext_getElem?
  intro j
  rw [List.getElem?_eraseIdx]
  by_cases inside : j < count - 1
  · rw [live_get _ inside,shiftDown_apply]
    split
    · rw [if_neg (by omega),live_get _ (by omega)]
    · rw [if_pos (by omega),live_get _ (by omega)]
  · rw [List.getElem?_eq_none (by simpa using inside)]
    split
    · omega
    · rw [List.getElem?_eq_none (by simp; omega)]

end SlotArray
